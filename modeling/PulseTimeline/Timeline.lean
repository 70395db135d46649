/-
  The timeline of an experiment.

  A timeline is made in three steps: lower the tree into events in absolute time, write the
  frequency of software oscillators on the pulses, and compute the phase of software oscillators.
  A failure of any step is a failure of the whole; there is no partial timeline.
-/
import PulseTimeline.Lowering
import PulseTimeline.Resolution.Frequency
import PulseTimeline.Resolution.Phase
import PulseTimeline.Settings

namespace PulseTimeline

/-- How the settings want a tree to be lowered. -/
def Settings.lowering (s : Settings) : LoweringOptions := ⟨s.expandLoops, s.maxEvents⟩

namespace Experiment

/-- Lower the experiment, and log what has no oscillators to reset. -/
def flattenLogged (x : Experiment) (d : Diagnostics) (tick : Float) (o : LoweringOptions) :
    Logged TimelineError (List Event) := do
  Logged.note (x.resetNotes d)
  Logged.ofExcept (x.flatten tick o)

/-- The timeline of the experiment, a tick lasting `tick` seconds. -/
def timeline (x : Experiment) (d : Diagnostics) (tick : Float) (o : LoweringOptions) :
    Logged TimelineError (List Event) := do
  let events ← x.flattenLogged d tick o
  Logged.note [⟨.debug, .eventList,
    "Flattened IR tree into " ++ toString events.length ++ " events"⟩]
  let events ← Frequency.resolve x.signalMap events
  Logged.ofExcept (Phase.resolve x.signalMap events)

/-- The timeline of the experiment under its settings. -/
def timelineUnder (x : Experiment) (d : Diagnostics) (s : Settings) :
    Logged TimelineError (List Event) :=
  x.timeline d s.tick s.lowering

end Experiment

end PulseTimeline
