/-
  Declaring the objects of an experiment one by one.

  A builder interns every name it is given.  Declarations come in dependency order: the device of a
  signal before the signal, the signals of an oscillator before the oscillator.  A call that breaks
  this order fails, and no other call does.

  An oscillator is attached to the first declaration of each listed signal; a later oscillator
  replaces an earlier one.
-/
import PulseTimeline.Experiment

namespace PulseTimeline

/-- A declaration out of order. -/
inductive DeclarationError
  /-- The device of the signal of this name is not declared. -/
  | deviceMissing (signal : String)
  /-- A signal of an oscillator is not declared. -/
  | signalMissing
deriving DecidableEq

/-- The text of the failure. -/
def DeclarationError.message : DeclarationError → String
  | .deviceMissing signal => "Device of signal '" ++ signal ++ "' must be added first"
  | .signalMissing => "Signal of oscillator must be added first"

/-- The objects declared so far, in order, and the names used for them. -/
structure Builder where
  names : NameStore
  signals : List Signal
  devices : List Device

namespace Builder

/-- The builder without declarations. -/
def empty : Builder := ⟨.empty, [], []⟩

/-- The identity of a name, as a thing of the given noun. -/
def uid (b : Builder) (noun : Noun) (name : String) : Uid noun × Builder :=
  (⟨(b.names.intern name).1⟩, { b with names := (b.names.intern name).2 })

/-- Declare a device. -/
def device (b : Builder) (name : String) (kind : DeviceKind) : DeviceUid × Builder :=
  let (uid, b) := b.uid .device name
  (uid, { b with devices := b.devices ++ [⟨uid, kind⟩] })

/-- Declare a signal of a declared device, as yet without an oscillator. -/
def signal (b : Builder) (name : String) (device : DeviceUid) :
    Except DeclarationError (SignalUid × Builder) :=
  if b.devices.any fun d => d.uid = device then
    let (uid, b) := b.uid .signal name
    .ok (uid, { b with signals := b.signals ++ [⟨uid, device, none⟩] })
  else .error (.deviceMissing name)

/-- The signals with `o` attached to the first declaration of `uid`, if there is one. -/
def attach (o : Oscillator) (uid : SignalUid) : List Signal → Option (List Signal)
  | [] => none
  | s :: rest =>
      if s.uid = uid then some ({ s with oscillator := some o } :: rest)
      else (attach o uid rest).map (s :: ·)

/-- The signals with `o` attached to each of the listed ones in turn. -/
def attachAll (o : Oscillator) (uids : List SignalUid) (signals : List Signal) :
    Option (List Signal) :=
  uids.foldlM (fun signals uid => attach o uid signals) signals

/-- Declare an oscillator and attach it to the listed signals. -/
def oscillator (b : Builder) (name : String) (kind : OscillatorKind) (uids : List SignalUid) :
    Except DeclarationError (Oscillator × Builder) :=
  let (uid, b) := b.uid .oscillator name
  let o : Oscillator := ⟨uid, kind, uids⟩
  match attachAll o uids b.signals with
  | some signals => .ok (o, { b with signals })
  | none => .error .signalMissing

/-- The experiment of the declared objects around a tree. -/
def build (b : Builder) (root : Option Node) : Experiment :=
  ⟨root, b.signals, b.devices, b.names⟩

end Builder

end PulseTimeline
