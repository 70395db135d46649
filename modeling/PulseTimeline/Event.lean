/-
  Events of the timeline.

  An event has an id, an instant, and says what happens then (`EventKind`).  What lasts is written
  as two events, a start and an end; the end carries the id of its start, its `chain`.

  `EventType` is the kind without its payload.  The order of the timeline's passes depends on an
  event's type only.
-/
import PulseTimeline.Experiment
import PulseTimeline.Time

namespace PulseTimeline

/-! ## Payloads -/

/-- What can occupy a signal for a while. -/
inductive Activity
  | play
  | delay
  | acquire
deriving DecidableEq

/-- The start of a play, a delay or an acquisition.

    In a finished timeline `phase` is the baseband phase, `oscillatorPhase` the phase of a software
    oscillator (absent for hardware oscillators), and a remaining `phaseIncrement` is left for the
    hardware oscillator. -/
structure PulseEvent where
  signal : SignalUid
  /-- The section that the pulse belongs to. -/
  owner : Option SectionUid
  pulse : Option PulseUid
  amplitude : Option Amplitude
  /-- Where the results of an acquisition go. -/
  handle : Option HandleUid
  phase : Float
  phaseIncrement : Option Float
  phaseSet : Option Float
  /-- Frequency of the software oscillator when the pulse starts. -/
  oscillatorFrequency : Option Float
  oscillatorPhase : Option Float
deriving DecidableEq

/-- A pulse event that says no more than where it is. -/
def PulseEvent.bare (signal : SignalUid) (owner : Option SectionUid) : PulseEvent :=
  ⟨signal, owner, none, none, none, 0.0, none, none, none, none⟩

/-- The new frequency of one oscillator. -/
structure FrequencyEvent where
  oscillator : OscillatorUid
  /-- The signals that the oscillator modulates. -/
  signals : List SignalUid
  value : Float
  parameter : Option ParameterUid
  owner : Option SectionUid
  iteration : Nat
deriving DecidableEq

/-! ## Types -/

/-- The kinds of events, without their payload. -/
inductive EventType
  | sectionStart
  | sectionEnd
  | loopStart
  | loopEnd
  | iterationStart
  | iterationEnd
  | pulseStart (activity : Activity)
  | pulseEnd (activity : Activity)
  | setFrequencyStart
  | setFrequencyEnd
  | initialFrequency
  | resetSoftwarePhase
  | resetHardwarePhase
  | initialReset
deriving DecidableEq

/-- The text of an event type. -/
def EventType.text : EventType → String
  | .sectionStart => "SECTION_START"
  | .sectionEnd => "SECTION_END"
  | .loopStart => "LOOP_START"
  | .loopEnd => "LOOP_END"
  | .iterationStart => "LOOP_ITERATION_START"
  | .iterationEnd => "LOOP_ITERATION_END"
  | .pulseStart .play => "PLAY_START"
  | .pulseEnd .play => "PLAY_END"
  | .pulseStart .delay => "DELAY_START"
  | .pulseEnd .delay => "DELAY_END"
  | .pulseStart .acquire => "ACQUIRE_START"
  | .pulseEnd .acquire => "ACQUIRE_END"
  | .setFrequencyStart => "SET_OSCILLATOR_FREQUENCY_START"
  | .setFrequencyEnd => "SET_OSCILLATOR_FREQUENCY_END"
  | .initialFrequency => "INITIAL_OSCILLATOR_FREQUENCY"
  | .resetSoftwarePhase => "RESET_SW_OSCILLATOR_PHASE"
  | .resetHardwarePhase => "RESET_HW_OSCILLATOR_PHASE"
  | .initialReset => "INITIAL_RESET_HW_OSCILLATOR_PHASE"

/-! ## Events -/

/-- What happens at an event.  `chain` is the id of the start that an end belongs to. -/
inductive EventKind
  | sectionStart (uid : SectionUid)
  | sectionEnd (uid : SectionUid) (chain : Nat)
  | loopStart (owner : SectionUid) (count : Nat)
  | loopEnd (owner : SectionUid) (chain : Nat)
  | iterationStart (owner : SectionUid) (index : Nat) (parameters : List ParameterUid)
  | iterationEnd (owner : SectionUid) (index : Nat) (chain : Nat)
  | pulseStart (activity : Activity) (pulse : PulseEvent)
  | pulseEnd (activity : Activity) (signal : SignalUid) (chain : Nat)
  | setFrequencyStart (update : FrequencyEvent)
  | setFrequencyEnd (oscillator : OscillatorUid) (signals : List SignalUid) (chain : Nat)
  | initialFrequency (update : FrequencyEvent)
  | resetSoftwarePhase (owner : Option SectionUid)
  | resetHardwarePhase (signals : List SignalUid)
  /-- The first reset of a device's hardware oscillators; it takes `duration` seconds. -/
  | initialReset (device : DeviceUid) (duration : Float)
deriving DecidableEq

namespace EventKind

/-- The kind without its payload. -/
def type : EventKind → EventType
  | .sectionStart .. => .sectionStart
  | .sectionEnd .. => .sectionEnd
  | .loopStart .. => .loopStart
  | .loopEnd .. => .loopEnd
  | .iterationStart .. => .iterationStart
  | .iterationEnd .. => .iterationEnd
  | .pulseStart activity _ => .pulseStart activity
  | .pulseEnd activity .. => .pulseEnd activity
  | .setFrequencyStart .. => .setFrequencyStart
  | .setFrequencyEnd .. => .setFrequencyEnd
  | .initialFrequency .. => .initialFrequency
  | .resetSoftwarePhase .. => .resetSoftwarePhase
  | .resetHardwarePhase .. => .resetHardwarePhase
  | .initialReset .. => .initialReset

/-- The signals that an event is about. -/
def signals : EventKind → List SignalUid
  | .pulseStart _ pulse => [pulse.signal]
  | .pulseEnd _ signal _ => [signal]
  | .setFrequencyStart update => update.signals
  | .initialFrequency update => update.signals
  | .setFrequencyEnd _ signals _ => signals
  | .resetHardwarePhase signals => signals
  | .sectionStart .. | .sectionEnd .. | .loopStart .. | .loopEnd .. | .iterationStart ..
  | .iterationEnd .. | .resetSoftwarePhase .. | .initialReset .. => []

/-- The id of the start that an end belongs to. -/
def chain? : EventKind → Option Nat
  | .sectionEnd _ chain => some chain
  | .loopEnd _ chain => some chain
  | .iterationEnd _ _ chain => some chain
  | .pulseEnd _ _ chain => some chain
  | .setFrequencyEnd _ _ chain => some chain
  | .sectionStart .. | .loopStart .. | .iterationStart .. | .pulseStart .. | .setFrequencyStart ..
  | .initialFrequency .. | .resetSoftwarePhase .. | .resetHardwarePhase .. | .initialReset .. =>
      none

end EventKind

/-- An event of the timeline. -/
structure Event where
  id : Nat
  time : Seconds
  kind : EventKind
deriving DecidableEq

/-- The type of an event. -/
def Event.type (e : Event) : EventType := e.kind.type

end PulseTimeline
