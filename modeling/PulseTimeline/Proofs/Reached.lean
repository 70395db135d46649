/-
  The nodes that can be reached in a tree, and when they start.

  1. **Reached** — the nodes reached from the root through roots, sections, loops and iterations,
     each with its absolute start, in depth-first order.

  2. **Changes and soundings** — what the reached nodes say about one signal: when its software
     oscillator changes its frequency, and when something is played or acquired on it.

  3. **Observations** — the history of an experiment is made of the settings of the reached nodes
     (`observations_eq`).

  4. **Events** — with loops expanded, the flattened experiment says of frequencies, plays and
     acquisitions what the reached nodes say, in the same order (`cues_flatten`).
-/
import PulseTimeline.FrequencyHistory
import PulseTimeline.Proofs.Edits

namespace PulseTimeline

/-! ## Reached nodes -/

/-- Whether the children of a node of this kind belong to the tree that is walked. -/
def NodeKind.holds : NodeKind → Bool
  | .root | .sect _ | .loop .. | .iteration .. => true
  | .play _ | .acquire .. | .delay .. | .setFrequency .. | .initialFrequency _
  | .resetSoftwarePhase _ | .resetHardwarePhase _ => false

mutual

/-- The nodes reached in a tree that starts at `start`, with their absolute starts. -/
def Node.reached : Node → Int → List (Int × NodeKind)
  | ⟨kind, _, children⟩, start =>
      (start, kind) :: if kind.holds then reachedChildren children start else []
termination_by structural n => n

/-- The nodes reached in the children of a node that starts at `start`. -/
def reachedChildren : List (Int × Node) → Int → List (Int × NodeKind)
  | [], _ => []
  | (offset, child) :: children, start =>
      child.reached (addTicks start offset) ++ reachedChildren children start
termination_by structural children => children

end

/-- The nodes reached in the tree of an experiment, with their absolute starts. -/
def Experiment.reached (x : Experiment) : List (Int × NodeKind) :=
  match x.root with
  | some root => root.reached 0
  | none => []

/-! ## What reached nodes say about a signal -/

/-- Whether a node of this kind sets initial frequencies. -/
def NodeKind.isInitial : NodeKind → Bool
  | .initialFrequency _ => true
  | _ => false

/-- The frequency settings of a node of this kind. -/
def NodeKind.settings : NodeKind → List FrequencySetting
  | .setFrequency _ settings _ => settings
  | .initialFrequency settings => settings
  | _ => []

/-- A change of the frequency on a signal, in ticks. -/
structure Change where
  time : Int
  /-- Whether it is an initial frequency. -/
  initial : Bool
  value : Float
deriving DecidableEq

/-- Whether a setting changes the frequency of a signal through an oscillator in software. -/
def FrequencySetting.tunes (uid : SignalUid) (s : FrequencySetting) : Bool :=
  !s.oscillator.isHardware && uid ∈ s.oscillator.signals

/-- The changes of the software frequency on a signal, in depth-first order. -/
def Experiment.changes (x : Experiment) (uid : SignalUid) : List Change :=
  x.reached.flatMap fun n =>
    (n.2.settings.filter (·.tunes uid)).map fun s => ⟨n.1, n.2.isInitial, s.value⟩

/-- A play or an acquisition of a tree, in ticks. -/
structure Sounding where
  start : Int
  activity : Activity
  signal : SignalUid
deriving DecidableEq

/-- The play or the acquisition that a node of this kind stands for. -/
def NodeKind.sounding? (start : Int) : NodeKind → Option Sounding
  | .play pulse => some ⟨start, .play, pulse.signal⟩
  | .acquire signal _ _ => some ⟨start, .acquire, signal⟩
  | _ => none

/-- The plays and acquisitions reached in the tree of an experiment, in depth-first order. -/
def Experiment.soundings (x : Experiment) : List Sounding :=
  x.reached.filterMap fun n => n.2.sounding? n.1

/-! ## Observations -/

mutual

/-- What is observed in a tree are the settings of the nodes that are reached, each at the start of
    its node. -/
theorem Node.observations_eq : ∀ (n : Node) (start : Int), n.observations start =
    (n.reached start).flatMap fun r => FrequencySetting.observations r.1 r.2.settings
  | ⟨.root, _, children⟩, start => by
      simp only [Node.observations, Node.reached, List.flatMap_cons, NodeKind.settings,
        NodeKind.holds, if_true, Node.childObservations_eq children]
      rfl
  | ⟨.sect _, _, children⟩, start => by
      simp only [Node.observations, Node.reached, List.flatMap_cons, NodeKind.settings,
        NodeKind.holds, if_true, Node.childObservations_eq children]
      rfl
  | ⟨.loop .., _, children⟩, start => by
      simp only [Node.observations, Node.reached, List.flatMap_cons, NodeKind.settings,
        NodeKind.holds, if_true, Node.childObservations_eq children]
      rfl
  | ⟨.iteration .., _, children⟩, start => by
      simp only [Node.observations, Node.reached, List.flatMap_cons, NodeKind.settings,
        NodeKind.holds, if_true, Node.childObservations_eq children]
      rfl
  | ⟨.setFrequency _ settings _, _, _⟩, start => (List.append_nil _).symm
  | ⟨.initialFrequency settings, _, _⟩, start => (List.append_nil _).symm
  | ⟨.play _, _, _⟩, start => rfl
  | ⟨.acquire .., _, _⟩, start => rfl
  | ⟨.delay .., _, _⟩, start => rfl
  | ⟨.resetSoftwarePhase _, _, _⟩, start => rfl
  | ⟨.resetHardwarePhase _, _, _⟩, start => rfl
termination_by structural n => n

theorem Node.childObservations_eq : ∀ (children : List (Int × Node)) (start : Int),
    Node.childObservations children start =
      (reachedChildren children start).flatMap fun r =>
        FrequencySetting.observations r.1 r.2.settings
  | [], start => rfl
  | (offset, child) :: children, start => by
      rw [Node.childObservations, reachedChildren, List.flatMap_append, Node.observations_eq child,
        Node.childObservations_eq children]
termination_by structural children => children

end

/-- The history of an experiment is made of the settings of the reached nodes. -/
theorem Experiment.frequencyHistory_eq (x : Experiment) :
    x.frequencyHistory = .ofObservations (x.reached.flatMap fun r =>
      FrequencySetting.observations r.1 r.2.settings) := by
  unfold Experiment.frequencyHistory Experiment.reached
  cases x.root with
  | none => rfl
  | some root => rw [← Node.observations_eq]

/-! ## Cues -/

/-- What nodes and events say of frequencies, plays and acquisitions. -/
inductive Cue
  | change (initial : Bool) (signals : List SignalUid) (value : Float)
  | sounding (activity : Activity) (signal : SignalUid) (frequency : Option Float)
deriving DecidableEq

/-- What an event of this kind says. -/
def EventKind.cue? : EventKind → Option Cue
  | .setFrequencyStart update => some (.change false update.signals update.value)
  | .initialFrequency update => some (.change true update.signals update.value)
  | .pulseStart .play pulse => some (.sounding .play pulse.signal pulse.oscillatorFrequency)
  | .pulseStart .acquire pulse => some (.sounding .acquire pulse.signal pulse.oscillatorFrequency)
  | _ => none

/-- What a node of this kind says. -/
def NodeKind.cues : NodeKind → List Cue
  | .setFrequency _ settings _ => settings.map fun s => .change false s.oscillator.signals s.value
  | .initialFrequency settings => settings.map fun s => .change true s.oscillator.signals s.value
  | .play pulse => [.sounding .play pulse.signal none]
  | .acquire signal _ _ => [.sounding .acquire signal none]
  | _ => []

/-- What reached nodes say, with their starts. -/
def cuesOf (reached : List (Int × NodeKind)) : List (Int × Cue) :=
  reached.flatMap fun r => r.2.cues.map fun c => (r.1, c)

/-- The cues of a list of reached nodes can be read piece by piece. -/
theorem cuesOf_append (as bs : List (Int × NodeKind)) :
    cuesOf (as ++ bs) = cuesOf as ++ cuesOf bs := by
  unfold cuesOf
  rw [List.flatMap_append]

/-- What the onsets of items say. -/
def cuesOfItems (is : List Item) : List (Int × Cue) :=
  (onsetsAll is).filterMap fun q => q.2.cue?.map fun c => (q.1, c)

/-- So can those of a list of items. -/
theorem cuesOfItems_append (as bs : List Item) :
    cuesOfItems (as ++ bs) = cuesOfItems as ++ cuesOfItems bs := by
  unfold cuesOfItems
  rw [onsetsAll_append, List.filterMap_append]

/-- What a span says that is about nothing but what is inside. -/
theorem cuesOfItems_span {start stop : Int} {what : Lasting} (inside : List Item)
    (h : what.first.cue? = none) :
    cuesOfItems [.span start stop what inside] = cuesOfItems inside := by
  unfold cuesOfItems
  simp only [onsetsAll, Item.onsets, List.append_nil, List.filterMap_cons, h, Option.map_none]

/-- A row of settings has a cue for each of them, all at the start of the node. -/
theorem cuesOfItems_settings {item : FrequencySetting → Item} {start : Int} {initial : Bool}
    (settings : List FrequencySetting)
    (h : ∀ s, cuesOfItems [item s] = [(start, .change initial s.oscillator.signals s.value)]) :
    cuesOfItems (settings.map item) =
      (settings.map fun s => Cue.change initial s.oscillator.signals s.value).map fun c =>
        (start, c) := by
  induction settings with
  | nil => rfl
  | cons s rest ih =>
      have hcons : (s :: rest).map item = [item s] ++ rest.map item := rfl
      rw [hcons, cuesOfItems_append, h s, ih]
      rfl

mutual

/-- With loops expanded, the outline of a tree without faults has the cues of the nodes that are
    reached, in the same order. -/
theorem Node.cues_outline : ∀ (n : Node) (start : Int) (owner : Option SectionUid),
    SoundAll (n.outline true start owner) →
      cuesOfItems (n.outline true start owner) = cuesOf (n.reached start)
  | ⟨.root, _, children⟩, start, owner, h => by
      rw [Node.outline] at h ⊢
      rw [Node.cues_childOutlines children start owner h]
      rfl
  | ⟨.sect uid, length, children⟩, start, owner, h => by
      rw [Node.outline] at h ⊢
      obtain ⟨stop, hstop, hsound, _⟩ := sound_untilStop h
      unfold untilStop
      rw [hstop]
      show cuesOfItems [_] = _
      rw [cuesOfItems_span _ rfl, Node.cues_childOutlines children start (some uid) hsound]
      rfl
  | ⟨.loop owner count, length, children⟩, start, _, h => by
      rw [Node.outline] at h ⊢
      obtain ⟨stop, hstop, hsound, _⟩ := sound_untilStop h
      unfold untilStop
      rw [hstop]
      show cuesOfItems [_] = _
      rw [cuesOfItems_span _ rfl, Node.cues_iterationOutlines owner children start hsound]
      rfl
  | ⟨.iteration .., _, _⟩, start, owner, h => by
      rw [Node.outline] at h
      exact absurd h.1 (fun hf => hf)
  | ⟨.play pulse, length, _⟩, start, owner, h => by
      rw [Node.outline] at h ⊢
      obtain ⟨stop, hstop, _⟩ := sound_untilStop h
      unfold untilStop
      rw [hstop]
      rfl
  | ⟨.acquire signal handle kernel, length, _⟩, start, owner, h => by
      rw [Node.outline] at h ⊢
      obtain ⟨stop, hstop, _⟩ := sound_untilStop h
      unfold untilStop
      rw [hstop]
      rfl
  | ⟨.delay signal phaseIncrement phaseSet, length, _⟩, start, owner, h => by
      rw [Node.outline] at h ⊢
      obtain ⟨stop, hstop, _⟩ := sound_untilStop h
      unfold untilStop
      rw [hstop]
      rfl
  | ⟨.setFrequency owner settings iteration, length, _⟩, start, _, h => by
      rw [Node.outline] at h ⊢
      obtain ⟨stop, hstop, _⟩ := sound_untilStop h
      unfold untilStop
      rw [hstop]
      show cuesOfItems (settings.map _) = _
      rw [cuesOfItems_settings settings fun s => rfl]
      exact (List.append_nil _).symm
  | ⟨.initialFrequency settings, _, _⟩, start, owner, h => by
      rw [Node.outline, cuesOfItems_settings settings fun s => rfl]
      exact (List.append_nil _).symm
  | ⟨.resetSoftwarePhase own, _, _⟩, start, owner, h => rfl
  | ⟨.resetHardwarePhase signals, _, _⟩, start, owner, h => rfl
termination_by structural n => n

/-- A sound outline with all loops expanded says what the reached nodes say. -/
theorem Node.cues_childOutlines : ∀ (children : List (Int × Node)) (start : Int)
    (owner : Option SectionUid), SoundAll (childOutlines true children start owner) →
      cuesOfItems (childOutlines true children start owner) =
        cuesOf (reachedChildren children start)
  | [], start, owner, h => rfl
  | (offset, child) :: children, start, owner, h => by
      rw [childOutlines, soundAll_append] at h
      rw [childOutlines, cuesOfItems_append, reachedChildren, cuesOf_append,
        Node.cues_outline child (addTicks start offset) owner h.1,
        Node.cues_childOutlines children start owner h.2]
termination_by structural children => children

/-- In a loop every child is an iteration, or the outline has a fault. -/
theorem Node.cues_iterationOutlines (owner : SectionUid) : ∀ (children : List (Int × Node))
    (start : Int), SoundAll (iterationOutlines true owner children start) →
      cuesOfItems (iterationOutlines true owner children start) =
        cuesOf (reachedChildren children start)
  | [], start, h => rfl
  | (offset, ⟨.iteration own index parameters, length, inner⟩) :: children, start, h => by
      rw [iterationOutlines, soundAll_append] at h
      obtain ⟨hfirst, hothers⟩ := h
      obtain ⟨stop, hstop, hsound, _⟩ := sound_untilStop hfirst
      rw [iterationOutlines, cuesOfItems_append, reachedChildren, cuesOf_append, if_pos rfl,
        Node.cues_iterationOutlines owner children start hothers]
      unfold untilStop
      rw [hstop]
      show cuesOfItems [_] ++ _ = _
      rw [cuesOfItems_span _ rfl,
        Node.cues_childOutlines inner (addTicks start offset) (some owner) hsound]
      rfl
  | (_, ⟨.root, _, _⟩) :: _, start, h => absurd h.1 (fun hf => hf)
  | (_, ⟨.sect .., _, _⟩) :: _, start, h => absurd h.1 (fun hf => hf)
  | (_, ⟨.loop .., _, _⟩) :: _, start, h => absurd h.1 (fun hf => hf)
  | (_, ⟨.play .., _, _⟩) :: _, start, h => absurd h.1 (fun hf => hf)
  | (_, ⟨.acquire .., _, _⟩) :: _, start, h => absurd h.1 (fun hf => hf)
  | (_, ⟨.delay .., _, _⟩) :: _, start, h => absurd h.1 (fun hf => hf)
  | (_, ⟨.setFrequency .., _, _⟩) :: _, start, h => absurd h.1 (fun hf => hf)
  | (_, ⟨.initialFrequency .., _, _⟩) :: _, start, h => absurd h.1 (fun hf => hf)
  | (_, ⟨.resetSoftwarePhase .., _, _⟩) :: _, start, h => absurd h.1 (fun hf => hf)
  | (_, ⟨.resetHardwarePhase .., _, _⟩) :: _, start, h => absurd h.1 (fun hf => hf)
termination_by structural children => children

end

/-- What an event says, and when. -/
def Event.cue? (e : Event) : Option (Seconds × Cue) := e.kind.cue?.map fun c => (e.time, c)

/-- The initial resets are no cues. -/
theorem cuesOfItems_resetItems (devices : List Device) :
    cuesOfItems (Experiment.resetItems devices) = [] := by
  induction devices with
  | nil => rfl
  | cons d ds ih =>
      unfold Experiment.resetItems at ih ⊢
      rw [List.filterMap_cons]
      cases d.kind.traits with
      | none => exact ih
      | some traits =>
          by_cases hreset : traits.resetsPhase = true
          · simp only [if_pos hreset]
            exact ih
          · simp only [if_neg hreset]
            exact ih

/-- What is a cue is no end. -/
theorem chain?_of_cue? {k : EventKind} (h : k.cue?.isSome = true) : k.chain? = none := by
  cases k <;> first | rfl | cases h

/-- With loops expanded, the flattened experiment says what the reached nodes say. -/
theorem cues_flatten {x : Experiment} {tick : Float} {o : LoweringOptions} {events : List Event}
    (hexpand : o.expandLoops = true) (h : x.flatten tick o = .ok events) :
    events.filterMap Event.cue? =
      (cuesOf x.reached).map fun c => (Seconds.ofTicks tick c.1, c.2) := by
  obtain ⟨hsound, _⟩ := Experiment.flatten_ok h
  have hcontent := content_filter (fun _ => chain?_of_cue?) h
  rw [hexpand] at hsound hcontent
  have hscore : cuesOfItems (x.score true) = cuesOf x.reached := by
    unfold Experiment.score Experiment.reached
    rw [cuesOfItems_append, cuesOfItems_resetItems, List.nil_append]
    unfold Experiment.outline at hsound ⊢
    cases hroot : x.root with
    | none => rfl
    | some root =>
        rw [hroot] at hsound
        exact root.cues_outline 0 none hsound
  -- Only events that say something count on either side.
  have hevents : events.filterMap Event.cue? =
      ((events.filter fun e => e.kind.cue?.isSome).map Event.content).filterMap
        fun c => c.2.cue?.map fun cue => (c.1, cue) := by
    rw [List.filterMap_map, List.filterMap_filter]
    refine List.filterMap_congr fun e _ => ?_
    unfold Event.cue?
    show _ = if e.kind.cue?.isSome = true then e.kind.cue?.map fun cue => (e.time, cue) else none
    cases e.kind.cue? <;> rfl
  have honsets : (((onsetsAll (x.score true)).filter fun q => q.2.cue?.isSome).map
      (stampOnset tick)).filterMap (fun c => c.2.cue?.map fun cue => (c.1, cue)) =
        (cuesOfItems (x.score true)).map fun c => (Seconds.ofTicks tick c.1, c.2) := by
    unfold cuesOfItems
    rw [List.filterMap_map, List.filterMap_filter, List.map_filterMap]
    refine List.filterMap_congr fun q _ => ?_
    show (if q.2.cue?.isSome = true then q.2.cue?.map fun cue => (Seconds.ofTicks tick q.1, cue)
      else none) = (q.2.cue?.map fun c => (q.1, c)).map fun c => (Seconds.ofTicks tick c.1, c.2)
    cases q.2.cue? <;> rfl
  rw [hevents, hcontent, honsets, hscore]

end PulseTimeline
