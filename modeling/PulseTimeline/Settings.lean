/-
  The settings under which a timeline is made.

  Settings are valid if a tick has a positive finite length and at least one event is allowed.
-/
import PulseTimeline.Decimal
import PulseTimeline.Json.Lexical
import PulseTimeline.Time

namespace PulseTimeline

/-- The settings under which a timeline is made. -/
structure Settings where
  /-- The length of a tick in seconds. -/
  tick : Float
  /-- The number of events that a tree may lower to. -/
  maxEvents : Nat
  /-- Whether all iterations of a loop are lowered, or only the first. -/
  expandLoops : Bool
deriving DecidableEq

/-- Why settings cannot be used. -/
inductive SettingsError
  /-- The length of a tick is not a positive number. -/
  | badTick (tick : Float)
  | noEvents
  /-- The text of the settings cannot be read. -/
  | unreadable (fault : JsonFault)
deriving DecidableEq

/-- The text of the failure. -/
def SettingsError.message : SettingsError → String
  | .badTick tick =>
      "Invalid compiler setting 'TINYSAMPLE': Expected a positive duration, got " ++
        Decimal.render tick
  | .noEvents =>
      "Invalid compiler setting 'MAX_EVENTS_TO_PUBLISH': At least one event must be allowed"
  | .unreadable fault => fault.text

namespace Settings

/-- The settings in use where nothing else is said. -/
def standard : Settings := ⟨tickDuration, 1000, true⟩

/-- The first reason why the settings cannot be used, if there is one. -/
def validate (s : Settings) : Except SettingsError Unit :=
  if s.tick.isNaN || s.tick.isInf || s.tick ≤ 0.0 then .error (.badTick s.tick)
  else if s.maxEvents = 0 then .error .noEvents
  else .ok ()

end Settings

end PulseTimeline
