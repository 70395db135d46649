import PulseTimeline.Proofs.SweepOrder
import PulseTimeline.Binary64
import PulseTimeline.Decimal
import PulseTimeline.Name
import PulseTimeline.Device
import PulseTimeline.Settings.Reader
import PulseTimeline.Settings
import PulseTimeline.Json.Number
import PulseTimeline.Json.Lexical
import PulseTimeline.Schedule.Session
import PulseTimeline.Schedule.Frequency
import PulseTimeline.Schedule.SamplingRate
import PulseTimeline.Schedule.Error
import PulseTimeline.FrequencyHistory
import PulseTimeline.Timeline
import PulseTimeline.Resolution.Phase
import PulseTimeline.Resolution.Frequency
import PulseTimeline.Resolution.Handled
import PulseTimeline.Lowering
import PulseTimeline.Experiment.SignalMap
import PulseTimeline.Error
import PulseTimeline.Event.Sweep
import PulseTimeline.Event
import PulseTimeline.Experiment.Builder
import PulseTimeline.Experiment
import PulseTimeline.Log
import PulseTimeline.Time
import PulseTimeline.Table
import PulseTimeline.Proofs.SweepRun
import PulseTimeline.Proofs.SweepLaws
import PulseTimeline.Proofs.Outline
import PulseTimeline.Proofs.Chains
import PulseTimeline.Proofs.HandledIds
import PulseTimeline.Proofs.FrequencyPass
import PulseTimeline.Proofs.PhasePass
import PulseTimeline.Proofs.Pipeline
import PulseTimeline.Proofs.Removal
import PulseTimeline.Proofs.OrderIndependence
import PulseTimeline.Proofs.Onsets
import PulseTimeline.Proofs.Edits
import PulseTimeline.Proofs.Interference
import PulseTimeline.Proofs.History
import PulseTimeline.Proofs.Reached
import PulseTimeline.Proofs.FrequencyAgreement
import PulseTimeline.Proofs.Sites
import PulseTimeline.Proofs.Limit
import PulseTimeline.Proofs.Success
import PulseTimeline.Proofs.Expansion
import PulseTimeline.Proofs.Brackets
import PulseTimeline.Proofs.SessionHistory
import PulseTimeline.Proofs.Declarations
import PulseTimeline.Proofs.PhaseLaw
import PulseTimeline.Proofs.FrequencyLaw
import PulseTimeline.Proofs.TimeOrder
import PulseTimeline.Proofs.FixedPoints
import PulseTimeline.Proofs.ResetBarrier
import PulseTimeline.Proofs.Tour
import PulseTimeline.Proofs.TickRange
import PulseTimeline.Proofs.PhaseFrame
import PulseTimeline.Proofs.StepFunctions
import PulseTimeline.Proofs.Sightings
import PulseTimeline.Proofs.Schedules
import PulseTimeline.Proofs.CanonicalOrder
import PulseTimeline.Proofs.Linkage
