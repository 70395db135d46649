/-
  What the scheduler remembers between its runs.

  An experiment is scheduled again and again, for instance when a sweep changes a parameter.  The
  acquisitions placed in a run are forgotten when the next one begins (`reset`).  The signals, the
  sampling rates and the combined warnings stay.

  Warnings on the same signal are combined into one: the report of the first warning is kept, and
  the arguments of all of them are collected.  Emitting the warnings reports each once, in the
  order in which they first came up, and forgets nothing.
-/
import PulseTimeline.Experiment
import PulseTimeline.Log
import PulseTimeline.Schedule.SamplingRate
import PulseTimeline.Time

namespace PulseTimeline

/-! ## Pulses -/

/-- A pulse placed on a signal; times are relative to the start of its section. -/
structure PulseSchedule where
  signal : SignalUid
  owner : SectionUid
  pulse : Option PulseUid
  /-- Where the results go, if the pulse is an acquisition. -/
  handle : Option HandleUid
  start : Int
  length : Int
deriving DecidableEq

namespace PulseSchedule

/-- Where the pulse ends. -/
def stop (p : PulseSchedule) : Int := addTicks p.start p.length

/-- Whether the pulse is an acquisition. -/
def isAcquisition (p : PulseSchedule) : Bool := p.handle.isSome

end PulseSchedule

/-! ## Sessions -/

/-- A warning to be reported once for all its arguments. -/
structure CombinedWarning (ρ : Type) where
  report : List String → ρ
  arguments : List String

/-- The state of the scheduler over its runs; `ρ` is what the report of a warning yields. -/
structure Session (ρ : Type) where
  signals : Table SignalUid Signal
  rates : SamplingRates
  warnings : Table SignalUid (CombinedWarning ρ)
  /-- The acquisitions of the current run. -/
  acquisitions : Table SignalUid (List PulseSchedule)

namespace Session

variable {ρ : Type}

/-- The session of an experiment, before its first run. -/
def ofExperiment (x : Experiment) : Session ρ where
  signals := .collect Signal.uid id x.signals
  rates := .ofDevices x.devices
  warnings := .empty
  acquisitions := .empty

/-- Begin a new run of the same experiment. -/
def reset (s : Session ρ) : Session ρ := { s with acquisitions := .empty }

/-- The signal of this identity. -/
def signal? (s : Session ρ) (uid : SignalUid) : Option Signal := s.signals.get? uid

/-- The sampling rate of the device of a signal. -/
def samplingRate (s : Session ρ) (uid : SignalUid) : Except ScheduleError Float :=
  match s.signal? uid with
  | some signal => s.rates.ofDevice signal.device
  | none => .error (.unknownSignal uid)

/-- Add an acquisition to the current run. -/
def addAcquisition (s : Session ρ) (p : PulseSchedule) : Except ScheduleError (Session ρ) :=
  if p.isAcquisition then
    .ok { s with acquisitions := s.acquisitions.alter p.signal fun ps => ps.getD [] ++ [p] }
  else .error (.notAnAcquisition p.signal)

/-- The acquisitions on a signal in the current run, in the order in which they were added. -/
def acquisitionsOn (s : Session ρ) (uid : SignalUid) : List PulseSchedule :=
  (s.acquisitions.get? uid).getD []

/-- Warn about a signal. -/
def warn (s : Session ρ) (uid : SignalUid) (report : List String → ρ) (argument : String) :
    Session ρ :=
  { s with
    warnings := s.warnings.alter uid fun w =>
      match w with
      | some w => { w with arguments := w.arguments ++ [argument] }
      | none => ⟨report, [argument]⟩ }

/-- The warning about a signal, if there is one. -/
def warning? (s : Session ρ) (uid : SignalUid) : Option (CombinedWarning ρ) := s.warnings.get? uid

/-- Report every warning once, in the order in which they first came up. -/
def emit (s : Session ρ) : List ρ := s.warnings.values.map fun w => w.report w.arguments

/-- What emitting the warnings logs. -/
def emitNotes (s : Session ρ) : List LogRecord :=
  [⟨.debug, .scheduling, "Emitting " ++ toString s.warnings.size ++ " combined warnings"⟩]

end Session

end PulseTimeline
