/-
  Writing the frequency of software oscillators on the pulses.

  A frequency set on a signal holds from its instant on, until the next one.  The pass sweeps over
  frequency events and pulses in order of time, keeping the frequency in effect on each signal that
  is not modulated in hardware, and writes it on every play and acquisition.  At the same instant
  initial frequencies come first, then frequency sets, then pulses, so that a pulse sees what is set
  when it starts.

  The frequency events that have been used up this way are removed; those of hardware oscillators
  stay in the list.
-/
import PulseTimeline.Event.Sweep
import PulseTimeline.Log
import PulseTimeline.Resolution.Handled

namespace PulseTimeline.Frequency

/-- The order of events at the same instant. -/
def rank : EventType → Option Int
  | .initialFrequency => some (-30)
  | .setFrequencyStart => some (-15)
  | .pulseStart .play => some 0
  | .pulseStart .acquire => some 0
  | _ => none

/-- The frequency in effect on each signal. -/
abbrev Current := Table SignalUid Float

/-- Let a frequency take effect on those of the signals that are not modulated in hardware.  A
    signal without an oscillator is worth a warning. -/
def apply (m : SignalMap) (value : Float) :
    List SignalUid → Current → Logged TimelineError Current
  | [], current => pure current
  | uid :: uids, current => do
      let s ← m.signal uid
      if s.oscillator.isNone then
        Logged.note [⟨.warn, .frequencies, "Frequency of oscillator targets signal '" ++
          m.display uid ++ "' without an oscillator"⟩]
      apply m value uids (if s.isHardware then current else current.insert uid value)

/-- The pulse with the frequency in effect on its signal, if there is one. -/
def annotate (m : SignalMap) (current : Current) (pulse : PulseEvent) :
    Except TimelineError PulseEvent := do
  if ← m.isHardware pulse.signal then pure pulse
  else
    match current.get? pulse.signal with
    | some frequency => pure { pulse with oscillatorFrequency := some frequency }
    | none => pure pulse

/-- One step of the sweep. -/
def step (m : SignalMap) (current : Current) (e : Event) :
    Logged TimelineError (Current × Event) :=
  match e.kind with
  | .setFrequencyStart update => do
      let current ← apply m update.value update.signals current
      pure (current, e)
  | .initialFrequency update => do
      let current ← apply m update.value update.signals current
      pure (current, e)
  | .pulseStart activity pulse => do
      let pulse ← Logged.ofExcept (annotate m current pulse)
      pure (current, { e with kind := .pulseStart activity pulse })
  | _ => pure (current, e)

/-- Write the frequencies on the pulses, and remove the frequency events that are used up. -/
def resolve (m : SignalMap) (events : List Event) : Logged TimelineError (List Event) := do
  let events ← sweep rank (step m) .empty events
  let handled ← Logged.ofExcept (handledEvents m events)
  Logged.note [⟨.debug, .frequencies,
    "Removing " ++ toString handled.length ++ " handled oscillator events"⟩]
  pure (removeEvents handled events)

end PulseTimeline.Frequency
