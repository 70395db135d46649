/-
  Frequency events that the timeline no longer needs.

  Once the frequency of software oscillators is written on the pulses, the events that set it are
  handled: every initial frequency, every frequency set with a signal that is not modulated in
  hardware, and the ends of the latter.  Ends are found by their chain in a second scan, since a
  list may name an end before its start.
-/
import PulseTimeline.Event
import PulseTimeline.Experiment.SignalMap

namespace PulseTimeline

/-- Whether one of the signals is not modulated in hardware; signals are looked up in order, up to
    the first such signal. -/
def anySoftware (m : SignalMap) : List SignalUid → Except TimelineError Bool
  | [] => .ok false
  | uid :: uids => do
      if ← m.isHardware uid then anySoftware m uids else .ok true

/-- Whether an event is handled by itself, not as the end of a handled start. -/
def isHandledStart (m : SignalMap) (kind : EventKind) : Except TimelineError Bool :=
  match kind with
  | .setFrequencyStart update => anySoftware m update.signals
  | .initialFrequency _ => .ok true
  | _ => .ok false

/-- The ids in `ids` and those of the events handled by themselves, each once. -/
def handledStarts (m : SignalMap) : List Event → List Nat → Except TimelineError (List Nat)
  | [], ids => .ok ids
  | e :: es, ids => do
      let handled ← isHandledStart m e.kind
      handledStarts m es (if handled then ids.insert e.id else ids)

/-- The ids in `ids` and those of the frequency ends whose chain is handled, each once.  The end of
    a handled end is handled too, if it comes later in the list. -/
def handledEnds : List Event → List Nat → List Nat
  | [], ids => ids
  | e :: es, ids =>
      match e.kind with
      | .setFrequencyEnd _ _ chain =>
          handledEnds es (if chain ∈ ids then ids.insert e.id else ids)
      | _ => handledEnds es ids

/-- The ids of the events that are no longer needed, each once. -/
def handledEvents (m : SignalMap) (events : List Event) : Except TimelineError (List Nat) := do
  let starts ← handledStarts m events []
  pure (handledEnds events starts)

/-- The events whose id is not among `ids`. -/
def removeEvents (ids : List Nat) (events : List Event) : List Event :=
  events.filter fun e => e.id ∉ ids

end PulseTimeline
