/-
  Lowering the tree of an experiment into a list of events in absolute time.

  1. **Walk** — `lower` visits the tree in depth-first order, carrying the absolute start in ticks
     and the section that an event is to be filed under.  Starts and ends are sums of 64 bits.  What
     lasts emits its start before, and its end after, everything inside it (`Progress.bracket`).  A
     loop lowers its iterations, or only the first one, standing for all, when loops are not
     expanded.

  2. **Ids** — a start takes the next id when it is emitted, because its end refers to it.  All
     other events are numbered afterwards, in the order of the list (`stamp`).

  3. **Limit** — every event of the tree is counted; one more than allowed is an error, and no
     partial list is returned.  The initial resets of the devices come first and are not counted.
-/
import PulseTimeline.Error
import PulseTimeline.Event
import PulseTimeline.Log

namespace PulseTimeline

/-- How a tree is to be lowered. -/
structure LoweringOptions where
  /-- Whether all iterations of a loop are lowered, or only the first. -/
  expandLoops : Bool
  /-- The number of events that the tree may lower to. -/
  maxEvents : Nat
deriving DecidableEq

/-! ## What has been emitted so far -/

/-- An emitted event: its id, if it has one already, and its time in ticks. -/
structure Pending where
  id? : Option Nat
  time : Int
  kind : EventKind
deriving DecidableEq

/-- The events emitted so far, and the next id to hand out. -/
structure Progress where
  emitted : Array Pending
  nextId : Nat
deriving DecidableEq

namespace Progress

/-- Nothing emitted yet. -/
def nothing : Progress := ⟨#[], 0⟩

/-- Emit an event, unless the limit is reached. -/
def push (limit : Nat) (p : Progress) (e : Pending) : Except TimelineError Progress :=
  if limit ≤ p.emitted.size then .error (.tooManyEvents limit)
  else .ok { p with emitted := p.emitted.push e }

/-- Emit an event that takes the next id. -/
def pushStart (limit : Nat) (p : Progress) (time : Int) (kind : EventKind) :
    Except TimelineError Progress :=
  -- A start that is refused ends the walk, so no id is lost.
  push limit { p with nextId := p.nextId + 1 } ⟨some p.nextId, time, kind⟩

/-- Emit a start, then what is inside, then the end that refers to the start. -/
def bracket (limit : Nat) (start stop : Int) (first : EventKind) (last : Nat → EventKind)
    (inside : Progress → Except TimelineError Progress) (p : Progress) :
    Except TimelineError Progress := do
  let inner ← p.pushStart limit start first
  let outer ← inside inner
  outer.push limit ⟨none, stop, last p.nextId⟩

end Progress

/-! ## The walk -/

/-- Where a node ends that starts at `start`. -/
def stopOf (kind : NodeKind) (length : Option Int) (start : Int) : Except TimelineError Int :=
  match length with
  | some length => .ok (addTicks start length)
  | none => .error (.unresolvedLength kind.name start)

/-- The event that starts a pulse to be played. -/
def Play.event (pulse : Play) (owner : Option SectionUid) : PulseEvent :=
  { PulseEvent.bare pulse.signal owner with
    pulse := pulse.pulse
    amplitude := pulse.amplitude
    phase := pulse.phase
    phaseIncrement := pulse.phaseIncrement
    phaseSet := pulse.phaseSet }

/-- The event of one frequency setting. -/
def FrequencySetting.event (setting : FrequencySetting) (owner : Option SectionUid)
    (iteration : Nat) : FrequencyEvent :=
  ⟨setting.oscillator.uid, setting.oscillator.signals, setting.value, setting.parameter, owner,
    iteration⟩

/-- Lower what occupies a signal from `start` to `stop`: a start and its end, nothing inside. -/
def lowerPulse (limit : Nat) (activity : Activity) (pulse : PulseEvent) (start stop : Int) :
    Progress → Except TimelineError Progress :=
  Progress.bracket limit start stop (.pulseStart activity pulse)
    (.pulseEnd activity pulse.signal) .ok

/-- Lower frequency settings of a sweep step: a start and its end for each, one after the other. -/
def lowerSettings (limit : Nat) (owner : SectionUid) (iteration : Nat) (start stop : Int) :
    List FrequencySetting → Progress → Except TimelineError Progress
  | [], p => .ok p
  | setting :: settings, p => do
      let p ← p.bracket limit start stop
        (.setFrequencyStart (setting.event (some owner) iteration))
        (.setFrequencyEnd setting.oscillator.uid setting.oscillator.signals) .ok
      lowerSettings limit owner iteration start stop settings p

/-- Lower initial frequency settings: one event for each. -/
def lowerInitialSettings (limit : Nat) (owner : Option SectionUid) (start : Int) :
    List FrequencySetting → Progress → Except TimelineError Progress
  | [], p => .ok p
  | setting :: settings, p => do
      let p ← p.push limit ⟨none, start, .initialFrequency (setting.event owner 0)⟩
      lowerInitialSettings limit owner start settings p

mutual

/-- Lower a node that starts at `start`; `owner` is the section or loop around it. -/
def lower (o : LoweringOptions) :
    Node → Int → Option SectionUid → Progress → Except TimelineError Progress
  | ⟨.root, _, children⟩, start, owner, p => lowerChildren o children start owner p
  | ⟨.sect uid, length, children⟩, start, _, p => do
      let stop ← stopOf (.sect uid) length start
      p.bracket o.maxEvents start stop (.sectionStart uid) (.sectionEnd uid)
        fun p => lowerChildren o children start (some uid) p
  | ⟨.loop owner count, length, children⟩, start, _, p => do
      let stop ← stopOf (.loop owner count) length start
      p.bracket o.maxEvents start stop (.loopStart owner count) (.loopEnd owner)
        fun p => lowerIterations o owner children start p
  | ⟨.iteration .., _, _⟩, start, _, _ => .error (.strayIteration start)
  | ⟨.play pulse, length, _⟩, start, owner, p => do
      let stop ← stopOf (.play pulse) length start
      lowerPulse o.maxEvents .play (pulse.event owner) start stop p
  | ⟨.acquire signal handle kernel, length, _⟩, start, owner, p => do
      let stop ← stopOf (.acquire signal handle kernel) length start
      lowerPulse o.maxEvents .acquire
        { PulseEvent.bare signal owner with pulse := kernel, handle := handle } start stop p
  | ⟨.delay signal phaseIncrement phaseSet, length, _⟩, start, owner, p => do
      let stop ← stopOf (.delay signal phaseIncrement phaseSet) length start
      lowerPulse o.maxEvents .delay
        { PulseEvent.bare signal owner with phaseIncrement, phaseSet } start stop p
  | ⟨.setFrequency owner settings iteration, length, _⟩, start, _, p => do
      let stop ← stopOf (.setFrequency owner settings iteration) length start
      lowerSettings o.maxEvents owner iteration start stop settings p
  | ⟨.initialFrequency settings, _, _⟩, start, owner, p =>
      lowerInitialSettings o.maxEvents owner start settings p
  | ⟨.resetSoftwarePhase own, _, _⟩, start, owner, p =>
      p.push o.maxEvents ⟨none, start, .resetSoftwarePhase (own <|> owner)⟩
  | ⟨.resetHardwarePhase signals, _, _⟩, start, _, p =>
      p.push o.maxEvents ⟨none, start, .resetHardwarePhase signals⟩
termination_by structural n => n

/-- Lower the children of a node that starts at `start`, in order. -/
def lowerChildren (o : LoweringOptions) :
    List (Int × Node) → Int → Option SectionUid → Progress → Except TimelineError Progress
  | [], _, _, p => .ok p
  | (offset, child) :: children, start, owner, p => do
      let p ← lower o child (addTicks start offset) owner p
      lowerChildren o children start owner p
termination_by structural children => children

/-- Lower the iterations of a loop that starts at `start`: all of them, or the first.  What an
    iteration holds is filed under the section of the loop. -/
def lowerIterations (o : LoweringOptions) (owner : SectionUid) :
    List (Int × Node) → Int → Progress → Except TimelineError Progress
  | [], _, p => .ok p
  | (offset, ⟨.iteration uid index parameters, length, inner⟩) :: children, start, p => do
      let stop ← stopOf (.iteration uid index parameters) length (addTicks start offset)
      let p ← p.bracket o.maxEvents (addTicks start offset) stop
        (.iterationStart uid index parameters) (.iterationEnd uid index) fun p =>
          lowerChildren o inner (addTicks start offset) (some owner) p
      if o.expandLoops then lowerIterations o owner children start p else .ok p
  | (_, ⟨kind, _, _⟩) :: _, _, _ => .error (.iterationExpected kind.name)
termination_by structural children => children

end

/-! ## The list of events -/

/-- One reset at time zero for each device that can reset its hardware oscillators. -/
def initialResets (devices : List Device) : List Pending :=
  devices.filterMap fun d =>
    match d.kind.traits with
    | some traits =>
        if traits.resetsPhase then some ⟨none, 0, .initialReset d.uid traits.resetDuration⟩
        else none
    | none => none

/-- Give ids from `next` on to the events without one, in order, and turn ticks into seconds. -/
def stamp (tick : Float) : Nat → List Pending → List Event
  | _, [] => []
  | next, ⟨some id, time, kind⟩ :: rest => ⟨id, .ofTicks tick time, kind⟩ :: stamp tick next rest
  | next, ⟨none, time, kind⟩ :: rest =>
      ⟨next, .ofTicks tick time, kind⟩ :: stamp tick (next + 1) rest

namespace Experiment

/-- Lower the tree of an experiment, if it has one. -/
def lowerRoot (o : LoweringOptions) (x : Experiment) : Except TimelineError Progress :=
  match x.root with
  | some root => lower o root 0 none .nothing
  | none => .ok .nothing

/-- The events of an experiment in absolute time, a tick lasting `tick` seconds: the initial resets
    of its devices, then what its tree lowers to. -/
def flatten (x : Experiment) (tick : Float) (o : LoweringOptions) :
    Except TimelineError (List Event) := do
  let p ← x.lowerRoot o
  pure (stamp tick p.nextId (initialResets x.devices ++ p.emitted.toList))

/-- Which devices have no oscillators to reset, for diagnostics. -/
def resetNotes (x : Experiment) (d : Diagnostics) : List LogRecord :=
  x.devices.flatMap fun device =>
    match device.kind.traits with
    | some _ => []
    | none =>
        d.record .lowering ("Device '" ++ x.names.display device.uid.id ++ "' of type '" ++
          device.kind.name ++ "' has no oscillators to reset")

end Experiment

end PulseTimeline
