/-
  Log records, and computations that log.

  Nothing is printed here: a record is a value, and a computation that logs returns its records.

  1. **Records** — a level, the part of the library that speaks, and a message.  Diagnostics are
     records of level `info` that exist only while the diagnostics switch is on.

  2. **Computations** — `Logged ε α` is what was logged, in order, and the result or the failure.
     A failure keeps the records made before it.  The records have no influence on the outcome:
     `outcome_bind` says that outcomes compose as if nothing were logged.
-/

namespace PulseTimeline

/-! ## Records -/

/-- How urgent a record is. -/
inductive LogLevel
  | warn
  | info
  | debug
deriving DecidableEq

/-- The text of a level. -/
def LogLevel.text : LogLevel → String
  | .warn => "WARN"
  | .info => "INFO"
  | .debug => "DEBUG"

/-- The part of the library that speaks. -/
inductive LogSource
  | eventList
  | lowering
  | frequencies
  | scheduling
deriving DecidableEq

/-- The target under which the records of a source are filed. -/
def LogSource.target : LogSource → String
  | .eventList => "laboneq.rust::laboneq_event_list"
  | .lowering => "laboneq.rust::laboneq_event_list::generator"
  | .frequencies => "laboneq.rust::laboneq_event_list::oscillator_frequency"
  | .scheduling => "laboneq.rust::laboneq_scheduler::schedule_data"

/-- One record of the log. -/
structure LogRecord where
  level : LogLevel
  source : LogSource
  message : String
deriving DecidableEq

/-- Whether diagnostics are logged. -/
structure Diagnostics where
  enabled : Bool
deriving DecidableEq

/-- A diagnostic record, if diagnostics are logged at all. -/
def Diagnostics.record (d : Diagnostics) (source : LogSource) (message : String) :
    List LogRecord :=
  if d.enabled then [⟨.info, source, message⟩] else []

/-! ## Computations that log -/

/-- What a computation logged, in order, and its result or failure. -/
structure Logged (ε α : Type) where
  log : List LogRecord
  outcome : Except ε α

namespace Logged

variable {ε α β : Type}

instance : Monad (Logged ε) where
  pure a := ⟨[], .ok a⟩
  bind x f :=
    match x.outcome with
    | .error e => ⟨x.log, .error e⟩
    | .ok a => ⟨x.log ++ (f a).log, (f a).outcome⟩

/-- Log some records. -/
def note (records : List LogRecord) : Logged ε Unit := ⟨records, .ok ()⟩

/-- A computation that logs nothing. -/
def ofExcept (x : Except ε α) : Logged ε α := ⟨[], x⟩

instance : MonadLift (Except ε) (Logged ε) := ⟨ofExcept⟩

@[simp] theorem outcome_pure (a : α) : (pure a : Logged ε α).outcome = .ok a := rfl

@[simp] theorem outcome_note (records : List LogRecord) :
    (note records : Logged ε Unit).outcome = .ok () := rfl

@[simp] theorem outcome_ofExcept (x : Except ε α) : (ofExcept x).outcome = x := rfl

@[simp] theorem outcome_bind (x : Logged ε α) (f : α → Logged ε β) :
    (x >>= f).outcome = x.outcome >>= fun a => (f a).outcome := by
  obtain ⟨l, o⟩ := x
  cases o <;> rfl

end Logged

/-- A computation in two steps succeeds only if both steps do. -/
theorem bind_ok {ε α β : Type} {x : Except ε α} {f : α → Except ε β} {b : β}
    (h : x >>= f = .ok b) : ∃ a, x = .ok a ∧ f a = .ok b := by
  cases x with
  | error e => cases h
  | ok a => exact ⟨a, rfl, h⟩

end PulseTimeline
