/-
  Schedules of frequency settings.

  A schedule lists oscillators and their new frequencies; it becomes one node of the tree.  It has
  no children to place.  Its length is the time the frequencies need to settle, and a parameter
  must have set it before the schedule is placed.
-/
import PulseTimeline.Experiment
import PulseTimeline.Schedule.Error

namespace PulseTimeline

/-- Pair oscillators with values and, as far as they go, with sweep parameters. -/
def pairSettings : List Oscillator → List Float → List ParameterUid → List FrequencySetting
  | o :: os, v :: vs, [] => ⟨o, v, none⟩ :: pairSettings os vs []
  | o :: os, v :: vs, p :: ps => ⟨o, v, some p⟩ :: pairSettings os vs ps
  | _, _, _ => []

/-- The settings of as many oscillators as there are values. -/
def frequencySettings (oscillators : List Oscillator) (values : List Float)
    (parameters : List ParameterUid) : Except ScheduleError (List FrequencySetting) :=
  if oscillators.length = values.length then .ok (pairSettings oscillators values parameters)
  else .error (.valueCount values.length oscillators.length)

/-- The frequencies of swept oscillators in one step of a sweep. -/
structure FrequencyStep where
  owner : SectionUid
  oscillators : List Oscillator
  /-- The sweep parameters of the oscillators, in the same order. -/
  parameters : List ParameterUid
  values : List Float
  iteration : Nat
  length : Option Int

namespace FrequencyStep

/-- The start of the placed schedule; there are no children to place. -/
def place (s : FrequencyStep) (start : Int) : Except ScheduleError Int :=
  match s.length with
  | some _ => .ok start
  | none => .error (.unresolvedLength "OscillatorFrequencyStepSchedule" start)

/-- The node of the schedule. -/
def node (s : FrequencyStep) : Except ScheduleError Node := do
  let settings ← frequencySettings s.oscillators s.values s.parameters
  pure (.leaf (.setFrequency s.owner settings s.iteration) s.length)

end FrequencyStep

/-- The frequencies of the oscillators at the start of the experiment. -/
structure InitialFrequencies where
  owner : SectionUid
  oscillators : List Oscillator
  values : List Float
  length : Option Int

namespace InitialFrequencies

/-- The start of the placed schedule; there are no children to place. -/
def place (s : InitialFrequencies) (start : Int) : Except ScheduleError Int :=
  match s.length with
  | some _ => .ok start
  | none => .error (.unresolvedLength "InitialOscillatorFrequencySchedule" start)

/-- The node of the schedule. -/
def node (s : InitialFrequencies) : Except ScheduleError Node := do
  let settings ← frequencySettings s.oscillators s.values []
  pure (.leaf (.initialFrequency settings) s.length)

end InitialFrequencies

end PulseTimeline
