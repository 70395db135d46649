/-
  The scheduled experiment: its signals, devices and oscillators, and the tree of what is played.

  1. **Objects** — a `Signal` is a line of a `Device` and may be modulated by an `Oscillator`,
     which is a circuit of the device or emulated in software.

  2. **Tree** — a `Node` says what happens, how long it takes (unless its length is still open)
     and what happens inside.  The start of a child is an offset from the start of its parent, so
     the absolute start of a node is the sum of the offsets on its path from the root.

  3. **Experiment** — the tree, if there is one, beside the objects and the store of their names.
-/
import PulseTimeline.Device

namespace PulseTimeline

/-! ## Objects -/

/-- Where an oscillator lives. -/
inductive OscillatorKind
  | hardware
  | software
deriving DecidableEq

/-- An oscillator and the signals that it modulates. -/
structure Oscillator where
  uid : OscillatorUid
  kind : OscillatorKind
  signals : List SignalUid
deriving DecidableEq

/-- Whether the oscillator is a circuit of the device. -/
def Oscillator.isHardware (o : Oscillator) : Bool := o.kind = .hardware

/-- A signal line, its device, and the oscillator that modulates it. -/
structure Signal where
  uid : SignalUid
  device : DeviceUid
  oscillator : Option Oscillator
deriving DecidableEq

/-- Whether the signal is modulated in hardware; one without oscillator counts as software. -/
def Signal.isHardware (s : Signal) : Bool := s.oscillator.any (·.isHardware)

/-! ## Tree -/

/-- A complex amplitude. -/
structure Amplitude where
  re : Float
  im : Float
deriving BEq, DecidableEq

/-- A pulse to be played. -/
structure Play where
  signal : SignalUid
  pulse : Option PulseUid
  amplitude : Option Amplitude
  /-- Baseband phase of the pulse. -/
  phase : Float
  /-- What the pulse adds to the running phase of its oscillator. -/
  phaseIncrement : Option Float
  /-- What the pulse sets the running phase of its oscillator to. -/
  phaseSet : Option Float
deriving BEq, DecidableEq

/-- The frequency of one oscillator, and the sweep parameter that it comes from. -/
structure FrequencySetting where
  oscillator : Oscillator
  value : Float
  parameter : Option ParameterUid
deriving BEq, DecidableEq

/-- What a node of the tree stands for. -/
inductive NodeKind
  | root
  | sect (uid : SectionUid)
  /-- A loop of a section; its children are its iterations. -/
  | loop (owner : SectionUid) (count : Nat)
  | iteration (owner : SectionUid) (index : Nat) (parameters : List ParameterUid)
  | play (pulse : Play)
  | acquire (signal : SignalUid) (handle : Option HandleUid) (kernel : Option PulseUid)
  | delay (signal : SignalUid) (phaseIncrement phaseSet : Option Float)
  /-- Frequencies of one sweep step; the length is the time they need to settle. -/
  | setFrequency (owner : SectionUid) (settings : List FrequencySetting) (iteration : Nat)
  /-- Frequencies at the start of the experiment. -/
  | initialFrequency (settings : List FrequencySetting)
  | resetSoftwarePhase (owner : Option SectionUid)
  | resetHardwarePhase (signals : List SignalUid)
deriving BEq, DecidableEq

/-- The name of a kind, for use in messages. -/
def NodeKind.name : NodeKind → String
  | .root => "Root"
  | .sect .. => "Section"
  | .loop .. => "Loop"
  | .iteration .. => "LoopIteration"
  | .play .. => "PlayPulse"
  | .acquire .. => "Acquire"
  | .delay .. => "Delay"
  | .setFrequency .. => "SetOscillatorFrequency"
  | .initialFrequency .. => "InitialOscillatorFrequency"
  | .resetSoftwarePhase .. => "ResetSwOscillatorPhase"
  | .resetHardwarePhase .. => "ResetHwOscillatorPhase"

/-- A node: what it stands for, its length in ticks (open until a parameter resolves it), and its
    children with their offsets in ticks from its start. -/
structure Node where
  kind : NodeKind
  length : Option Int
  children : List (Int × Node)

namespace Node

/-- A node without children. -/
def leaf (kind : NodeKind) (length : Option Int) : Node := ⟨kind, length, []⟩

/-- The node with its length resolved. -/
def withLength (n : Node) (length : Int) : Node := { n with length := some length }

/-- The node with one more child, after the others. -/
def withChild (n : Node) (offset : Int) (child : Node) : Node :=
  { n with children := n.children ++ [(offset, child)] }

mutual

/-- Whether two trees are the same, node by node.  Numbers are compared as numbers: a NaN differs
    from itself, and the two zeros are equal. -/
def same : Node → Node → Bool
  | ⟨k₁, l₁, cs₁⟩, ⟨k₂, l₂, cs₂⟩ => k₁ == k₂ && l₁ == l₂ && sameChildren cs₁ cs₂
termination_by structural n => n

/-- Whether two lists of children agree in length, offsets and nodes. -/
def sameChildren : List (Int × Node) → List (Int × Node) → Bool
  | [], [] => true
  | (o₁, n₁) :: cs₁, (o₂, n₂) :: cs₂ => o₁ == o₂ && same n₁ n₂ && sameChildren cs₁ cs₂
  | _, _ => false
termination_by structural cs => cs

end

end Node

/-! ## Experiment -/

/-- A scheduled experiment. -/
structure Experiment where
  root : Option Node
  signals : List Signal
  devices : List Device
  names : NameStore

namespace Experiment

/-- The signal of this identity, the one declared first. -/
def signal? (x : Experiment) (uid : SignalUid) : Option Signal :=
  x.signals.find? fun s => s.uid = uid

/-- The device of this identity, the one declared first. -/
def device? (x : Experiment) (uid : DeviceUid) : Option Device :=
  x.devices.find? fun d => d.uid = uid

end Experiment

end PulseTimeline
