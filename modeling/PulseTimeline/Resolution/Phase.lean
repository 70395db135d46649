/-
  Computing the phase of software oscillators at every pulse.

  A software oscillator turns with its frequency from a reference time on, and carries a phase that
  pulses increment or set.  The pass sweeps over resets and pulses in order of time, keeping for
  each signal its carried phase and the time of its last set, and for all signals the time of the
  last reset.  A reset at the instant of a pulse comes before the pulse.

  Increments and sets of software oscillators are used up.  A hardware oscillator keeps its
  increment, and setting its phase is an error.  On readout instruments the phase is always zero.
-/
import PulseTimeline.Event.Sweep
import PulseTimeline.Experiment.SignalMap

namespace PulseTimeline.Phase

/-- The order of events at the same instant. -/
def rank : EventType → Option Int
  | .resetSoftwarePhase => some (-15)
  | .pulseStart _ => some 0
  | _ => none

/-- Half a turn. -/
def pi : Float := 3.141592653589793

/-- The running phase of a signal. -/
structure Running where
  /-- The phase carried since the last set or reset. -/
  carried : Float
  /-- The time of the last set. -/
  reference : Float
deriving DecidableEq

/-- A signal whose phase was neither incremented nor set. -/
def Running.fresh : Running := ⟨0.0, 0.0⟩

/-- The running phases of all signals, and the time of the last reset. -/
structure State where
  signals : Table SignalUid Running
  resetTime : Float

namespace State

/-- No signal has a phase, and nothing was reset. -/
def start : State := ⟨.empty, 0.0⟩

/-- Reset the phase of all signals. -/
def reset (s : State) (time : Float) : State :=
  ⟨s.signals.mapValues fun r => { r with carried := 0.0 }, time⟩

/-- Add to the phase of a signal. -/
def increment (s : State) (uid : SignalUid) (value : Float) : State :=
  { s with
    signals := s.signals.alter uid fun r =>
      { r.getD .fresh with carried := (r.getD .fresh).carried + value } }

/-- Set the phase of a signal. -/
def assign (s : State) (uid : SignalUid) (time value : Float) : State :=
  { s with signals := s.signals.insert uid ⟨value, time⟩ }

end State

/-- The later of two times; what is no time does not count. -/
def later (a b : Float) : Float :=
  if a.isNaN then b else if b.isNaN then a else if a < b then b else a

/-- The phase at `time` of an oscillator of frequency `frequency` that has turned since `reference`
    and carries `carried`. -/
def turned (time reference frequency carried : Float) : Float :=
  (time - reference) * 2.0 * pi * frequency + carried

/-- The phase of a signal at `time`. -/
def State.phaseAt (s : State) (uid : SignalUid) (frequency time : Float) : Float :=
  match s.signals.get? uid with
  | some r => turned time (later r.reference s.resetTime) frequency r.carried
  | none => turned time s.resetTime frequency 0.0

/-- Use up the increment and the set of a pulse on a software oscillator; the set comes last. -/
def State.advance (s : State) (time : Float) (pulse : PulseEvent) : State :=
  let s :=
    match pulse.phaseIncrement with
    | some value => s.increment pulse.signal value
    | none => s
  match pulse.phaseSet with
  | some value => s.assign pulse.signal time value
  | none => s

/-- Resolve the phase of a pulse that starts at `time`. -/
def resolvePulse (m : SignalMap) (s : State) (time : Float) (pulse : PulseEvent) :
    Except TimelineError (State × PulseEvent) := do
  if ← m.isHardware pulse.signal then
    match pulse.phaseSet with
    | some _ => throw (.hardwarePhaseSet (m.display pulse.signal))
    | none => pure (s, { pulse with oscillatorPhase := none })
  else
    -- A readout instrument carries the phase along too, but its pulses never show it.
    let s := s.advance time pulse
    let phase :=
      if ← m.isReadout pulse.signal then 0.0
      else s.phaseAt pulse.signal (pulse.oscillatorFrequency.getD 0.0) time
    pure (s, { pulse with
      phaseIncrement := none, phaseSet := none, oscillatorPhase := some phase })

/-- One step of the sweep. -/
def step (m : SignalMap) (s : State) (e : Event) : Except TimelineError (State × Event) :=
  match e.kind with
  | .resetSoftwarePhase _ => pure (s.reset e.time.toFloat, e)
  | .pulseStart activity pulse => do
      let (s, pulse) ← resolvePulse m s e.time.toFloat pulse
      pure (s, { e with kind := .pulseStart activity pulse })
  | _ => pure (s, e)

/-- Compute the phase of every pulse. -/
def resolve (m : SignalMap) (events : List Event) : Except TimelineError (List Event) :=
  sweep rank (step m) .start events

end PulseTimeline.Phase
