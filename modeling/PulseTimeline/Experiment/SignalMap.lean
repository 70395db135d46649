/-
  Looking up the oscillator and the device of a signal.

  Every signal of an event must be known here: a missing entry means that the events and the map
  come from different experiments.  Where an identity is declared more than once, the last
  declaration counts.
-/
import PulseTimeline.Error
import PulseTimeline.Experiment
import PulseTimeline.Table

namespace PulseTimeline

/-- The signals and devices of an experiment by identity, and the names for messages. -/
structure SignalMap where
  signals : Table SignalUid Signal
  devices : Table DeviceUid DeviceKind
  names : NameStore

/-- The signals and the device kinds of an experiment by identity. -/
def Experiment.signalMap (x : Experiment) : SignalMap where
  signals := .collect Signal.uid id x.signals
  devices := .collect Device.uid Device.kind x.devices
  names := x.names

namespace SignalMap

/-- The name of a signal for use in messages. -/
def display (m : SignalMap) (uid : SignalUid) : String := m.names.display uid.id

/-- The signal of this identity. -/
def signal (m : SignalMap) (uid : SignalUid) : Except TimelineError Signal :=
  match m.signals.get? uid with
  | some s => .ok s
  | none => .error (.unknownSignal (m.display uid))

/-- The oscillator of a signal, if it has one. -/
def oscillator (m : SignalMap) (uid : SignalUid) : Except TimelineError (Option Oscillator) := do
  let s ← m.signal uid
  pure s.oscillator

/-- Whether a signal is modulated in hardware. -/
def isHardware (m : SignalMap) (uid : SignalUid) : Except TimelineError Bool := do
  let s ← m.signal uid
  pure s.isHardware

/-- The family of the device of a signal. -/
def deviceKind (m : SignalMap) (uid : SignalUid) : Except TimelineError DeviceKind := do
  let s ← m.signal uid
  match m.devices.get? s.device with
  | some kind => pure kind
  | none => throw (.unknownDevice (m.names.display s.device.id) (m.display uid))

/-- Whether a signal belongs to a readout instrument. -/
def isReadout (m : SignalMap) (uid : SignalUid) : Except TimelineError Bool := do
  let kind ← m.deviceKind uid
  pure kind.isReadout

theorem signal_ok {m : SignalMap} {uid : SignalUid} {s : Signal} :
    m.signal uid = .ok s ↔ m.signals.get? uid = some s := by
  rw [signal]
  cases m.signals.get? uid <;> simp

theorem isHardware_ok {m : SignalMap} {uid : SignalUid} {b : Bool} :
    m.isHardware uid = .ok b ↔ ∃ s, m.signals.get? uid = some s ∧ s.isHardware = b := by
  rw [isHardware, signal]
  cases m.signals.get? uid with
  | none =>
      constructor
      · intro h
        cases h
      · rintro ⟨s, hs, _⟩
        cases hs
  | some s =>
      constructor
      · intro h
        exact ⟨s, rfl, Except.ok.inj h⟩
      · rintro ⟨s', hs, rfl⟩
        cases hs
        rfl

end SignalMap

end PulseTimeline
