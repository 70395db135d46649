/-
  Why a timeline cannot be made.

  Each constructor is a cause with what is known of it; `TimelineError.message` is the only place
  where the causes are put into words.
-/

namespace PulseTimeline

/-- Why a timeline cannot be made. -/
inductive TimelineError
  /-- The tree lowers to more events than are allowed. -/
  | tooManyEvents (limit : Nat)
  /-- A pulse sets the phase of a hardware oscillator. -/
  | hardwarePhaseSet (signal : String)
  /-- The length of a node is still open. -/
  | unresolvedLength (node : String) (start : Int)
  | unknownSignal (signal : String)
  | unknownDevice (device signal : String)
  /-- A child of a loop is no iteration. -/
  | iterationExpected (found : String)
  /-- An iteration stands outside of a loop. -/
  | strayIteration (start : Int)
deriving DecidableEq

/-- The text of the failure. -/
def TimelineError.message : TimelineError → String
  | .tooManyEvents limit =>
      "Exceeded the maximum number of events (" ++ toString limit ++
        ") while generating the event list"
  | .hardwarePhaseSet signal =>
      "Internal error: Cannot set phase of hardware oscillator on signal '" ++ signal ++
        "' (should have been caught earlier)"
  | .unresolvedLength node start =>
      "Internal error: Length of '" ++ node ++ "' node starting at " ++ toString start ++
        " is not resolved"
  | .unknownSignal signal => "Internal error: Unknown signal '" ++ signal ++ "'"
  | .unknownDevice device signal =>
      "Internal error: Unknown device '" ++ device ++ "' of signal '" ++ signal ++ "'"
  | .iterationExpected found =>
      "Internal error: Expected loop iteration as child of loop, got '" ++ found ++ "'"
  | .strayIteration start =>
      "Internal error: Loop iteration at " ++ toString start ++ " outside of a loop"

end PulseTimeline
