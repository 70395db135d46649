/-
  The outline of a tree: what it lowers to, before ids are handed out and events are counted.

  1. **Items** — an `Item` is a point in time, a span with its start, its end and what happens in
     between, or a fault that ends the walk.  What a span is about determines both of its events
     (`Lasting`), so an end always fits its start.

  2. **Outline** — `Node.outline` visits the tree as `lower` does, but only collects items.
     Lowering a tree is emitting its outline (`lower_eq`): what the walk does to the counter, the
     limit and the list is said by `emitAll`, once for all kinds of nodes.

  3. **Events** — `eventsAll` writes items down as events; starts and other events are numbered by
     two counters.  The events of an experiment are those of its score, the initial resets and the
     outline of its tree (`flatten_ok`).
-/
import PulseTimeline.Lowering

namespace PulseTimeline

/-! ## Items -/

/-- What lasts: it has a start and an end. -/
inductive Lasting
  | sect (uid : SectionUid)
  | loop (owner : SectionUid) (count : Nat)
  | iteration (owner : SectionUid) (index : Nat) (parameters : List ParameterUid)
  | pulse (activity : Activity) (start : PulseEvent)
  | frequency (update : FrequencyEvent)
deriving DecidableEq

/-- What happens at the start. -/
def Lasting.first : Lasting → EventKind
  | .sect uid => .sectionStart uid
  | .loop owner count => .loopStart owner count
  | .iteration owner index parameters => .iterationStart owner index parameters
  | .pulse activity start => .pulseStart activity start
  | .frequency update => .setFrequencyStart update

/-- What happens at the end, `chain` being the id of the start. -/
def Lasting.last : Lasting → Nat → EventKind
  | .sect uid, chain => .sectionEnd uid chain
  | .loop owner _, chain => .loopEnd owner chain
  | .iteration owner index _, chain => .iterationEnd owner index chain
  | .pulse activity start, chain => .pulseEnd activity start.signal chain
  | .frequency update, chain => .setFrequencyEnd update.oscillator update.signals chain

/-- What happens at an instant and does not last. -/
inductive Momentary
  | initialFrequency (update : FrequencyEvent)
  | resetSoftwarePhase (owner : Option SectionUid)
  | resetHardwarePhase (signals : List SignalUid)
  | initialReset (device : DeviceUid) (duration : Float)
deriving DecidableEq

/-- The event of what does not last. -/
def Momentary.kind : Momentary → EventKind
  | .initialFrequency update => .initialFrequency update
  | .resetSoftwarePhase owner => .resetSoftwarePhase owner
  | .resetHardwarePhase signals => .resetHardwarePhase signals
  | .initialReset device duration => .initialReset device duration

/-- What a tree lowers to: points and spans in ticks, or a fault that ends the walk. -/
inductive Item
  | point (time : Int) (what : Momentary)
  | span (start stop : Int) (what : Lasting) (inside : List Item)
  | fault (error : TimelineError)

/-! ## Emitting items -/

mutual

/-- Emit the events of an item. -/
def Item.emit (limit : Nat) : Item → Progress → Except TimelineError Progress
  | .point time what, p => p.push limit ⟨none, time, what.kind⟩
  | .span start stop what inside, p =>
      p.bracket limit start stop what.first what.last fun p => emitAll limit inside p
  | .fault error, _ => .error error
termination_by structural i => i

/-- Emit the events of items in order. -/
def emitAll (limit : Nat) : List Item → Progress → Except TimelineError Progress
  | [], p => .ok p
  | i :: is, p => do
      let p ← i.emit limit p
      emitAll limit is p
termination_by structural is => is

end

theorem emitAll_append (limit : Nat) (as bs : List Item) (p : Progress) :
    emitAll limit (as ++ bs) p = emitAll limit as p >>= fun p => emitAll limit bs p := by
  induction as generalizing p with
  | nil => rfl
  | cons a as ih =>
      show (a.emit limit p >>= fun p => emitAll limit (as ++ bs) p) =
        (a.emit limit p >>= fun p => emitAll limit as p) >>= fun p => emitAll limit bs p
      cases a.emit limit p with
      | error x => rfl
      | ok q => exact ih q

theorem emitAll_singleton (limit : Nat) (i : Item) (p : Progress) :
    emitAll limit [i] p = i.emit limit p := by
  show (i.emit limit p >>= fun p => .ok p) = i.emit limit p
  cases i.emit limit p <;> rfl

/-! ## The outline of a tree -/

/-- The items of what starts at `start`, given its stop; a fault if its length is open. -/
def untilStop (kind : NodeKind) (length : Option Int) (start : Int) (items : Int → List Item) :
    List Item :=
  match stopOf kind length start with
  | .ok stop => items stop
  | .error error => [.fault error]

mutual

/-- The outline of a node that starts at `start`; `owner` is the section or loop around it. -/
def Node.outline (expand : Bool) : Node → Int → Option SectionUid → List Item
  | ⟨.root, _, children⟩, start, owner => childOutlines expand children start owner
  | ⟨.sect uid, length, children⟩, start, _ =>
      untilStop (.sect uid) length start fun stop =>
        [.span start stop (.sect uid) (childOutlines expand children start (some uid))]
  | ⟨.loop owner count, length, children⟩, start, _ =>
      untilStop (.loop owner count) length start fun stop =>
        [.span start stop (.loop owner count) (iterationOutlines expand owner children start)]
  | ⟨.iteration .., _, _⟩, start, _ => [.fault (.strayIteration start)]
  | ⟨.play pulse, length, _⟩, start, owner =>
      untilStop (.play pulse) length start fun stop =>
        [.span start stop (.pulse .play (pulse.event owner)) []]
  | ⟨.acquire signal handle kernel, length, _⟩, start, owner =>
      untilStop (.acquire signal handle kernel) length start fun stop =>
        [.span start stop (.pulse .acquire
          { PulseEvent.bare signal owner with pulse := kernel, handle := handle }) []]
  | ⟨.delay signal phaseIncrement phaseSet, length, _⟩, start, owner =>
      untilStop (.delay signal phaseIncrement phaseSet) length start fun stop =>
        [.span start stop (.pulse .delay
          { PulseEvent.bare signal owner with phaseIncrement, phaseSet }) []]
  | ⟨.setFrequency owner settings iteration, length, _⟩, start, _ =>
      untilStop (.setFrequency owner settings iteration) length start fun stop =>
        settings.map fun setting =>
          .span start stop (.frequency (setting.event (some owner) iteration)) []
  | ⟨.initialFrequency settings, _, _⟩, start, owner =>
      settings.map fun setting => .point start (.initialFrequency (setting.event owner 0))
  | ⟨.resetSoftwarePhase own, _, _⟩, start, owner =>
      [.point start (.resetSoftwarePhase (own <|> owner))]
  | ⟨.resetHardwarePhase signals, _, _⟩, start, _ => [.point start (.resetHardwarePhase signals)]
termination_by structural n => n

/-- The outlines of the children of a node that starts at `start`, in order. -/
def childOutlines (expand : Bool) : List (Int × Node) → Int → Option SectionUid → List Item
  | [], _, _ => []
  | (offset, child) :: children, start, owner =>
      child.outline expand (addTicks start offset) owner ++
        childOutlines expand children start owner
termination_by structural children => children

/-- The outlines of the iterations of a loop that starts at `start`: all of them, or the first. -/
def iterationOutlines (expand : Bool) (owner : SectionUid) :
    List (Int × Node) → Int → List Item
  | [], _ => []
  | (offset, ⟨.iteration uid index parameters, length, inner⟩) :: children, start =>
      (untilStop (.iteration uid index parameters) length (addTicks start offset) fun stop =>
        [.span (addTicks start offset) stop (.iteration uid index parameters)
          (childOutlines expand inner (addTicks start offset) (some owner))]) ++
        if expand then iterationOutlines expand owner children start else []
  | (_, ⟨kind, _, _⟩) :: _, _ => [.fault (.iterationExpected kind.name)]
termination_by structural children => children

end

/-! ## Lowering is emitting the outline -/

theorem emitAll_untilStop (limit : Nat) (kind : NodeKind) (length : Option Int) (start : Int)
    (items : Int → List Item) (p : Progress) :
    emitAll limit (untilStop kind length start items) p =
      stopOf kind length start >>= fun stop => emitAll limit (items stop) p := by
  rw [untilStop]
  cases stopOf kind length start <;> rfl

theorem lowerSettings_eq (limit : Nat) (owner : SectionUid) (iteration : Nat) (start stop : Int)
    (settings : List FrequencySetting) (p : Progress) :
    lowerSettings limit owner iteration start stop settings p =
      emitAll limit (settings.map fun setting =>
        .span start stop (.frequency (setting.event (some owner) iteration)) []) p := by
  induction settings generalizing p with
  | nil => rfl
  | cons setting settings ih =>
      simp only [lowerSettings, List.map_cons, emitAll, ih]
      rfl

theorem lowerInitialSettings_eq (limit : Nat) (owner : Option SectionUid) (start : Int)
    (settings : List FrequencySetting) (p : Progress) :
    lowerInitialSettings limit owner start settings p =
      emitAll limit (settings.map fun setting =>
        .point start (.initialFrequency (setting.event owner 0))) p := by
  induction settings generalizing p with
  | nil => rfl
  | cons setting settings ih =>
      simp only [lowerInitialSettings, List.map_cons, emitAll, ih]
      rfl

mutual

/-- Lowering a tree is emitting its outline. -/
theorem lower_eq (o : LoweringOptions) : ∀ (n : Node) (start : Int) (owner : Option SectionUid)
    (p : Progress), lower o n start owner p =
      emitAll o.maxEvents (n.outline o.expandLoops start owner) p
  | ⟨.root, _, children⟩, start, owner, p => by
      rw [lower, Node.outline]
      exact lowerChildren_eq o children start owner p
  | ⟨.sect uid, length, children⟩, start, owner, p => by
      rw [lower, Node.outline, emitAll_untilStop]
      simp only [emitAll_singleton, Item.emit, lowerChildren_eq o children]
      rfl
  | ⟨.loop owner count, length, children⟩, start, _, p => by
      rw [lower, Node.outline, emitAll_untilStop]
      simp only [emitAll_singleton, Item.emit, lowerIterations_eq o owner children]
      rfl
  | ⟨.iteration .., _, _⟩, start, owner, p => by rw [lower, Node.outline]; rfl
  | ⟨.play pulse, length, _⟩, start, owner, p => by
      rw [lower, Node.outline, emitAll_untilStop]
      simp only [emitAll_singleton, Item.emit]
      rfl
  | ⟨.acquire signal handle kernel, length, _⟩, start, owner, p => by
      rw [lower, Node.outline, emitAll_untilStop]
      simp only [emitAll_singleton, Item.emit]
      rfl
  | ⟨.delay signal phaseIncrement phaseSet, length, _⟩, start, owner, p => by
      rw [lower, Node.outline, emitAll_untilStop]
      simp only [emitAll_singleton, Item.emit]
      rfl
  | ⟨.setFrequency owner settings iteration, length, _⟩, start, _, p => by
      rw [lower, Node.outline, emitAll_untilStop]
      simp only [lowerSettings_eq]
  | ⟨.initialFrequency settings, _, _⟩, start, owner, p => by
      rw [lower, Node.outline, lowerInitialSettings_eq]
  | ⟨.resetSoftwarePhase own, _, _⟩, start, owner, p => by
      rw [lower, Node.outline, emitAll_singleton]
      rfl
  | ⟨.resetHardwarePhase signals, _, _⟩, start, owner, p => by
      rw [lower, Node.outline, emitAll_singleton]
      rfl
termination_by structural n => n

theorem lowerChildren_eq (o : LoweringOptions) : ∀ (children : List (Int × Node)) (start : Int)
    (owner : Option SectionUid) (p : Progress), lowerChildren o children start owner p =
      emitAll o.maxEvents (childOutlines o.expandLoops children start owner) p
  | [], start, owner, p => rfl
  | (offset, child) :: children, start, owner, p => by
      rw [lowerChildren, childOutlines, emitAll_append, lower_eq o child]
      simp only [lowerChildren_eq o children]
termination_by structural children => children

theorem lowerIterations_eq (o : LoweringOptions) (owner : SectionUid) :
    ∀ (children : List (Int × Node)) (start : Int) (p : Progress),
      lowerIterations o owner children start p =
        emitAll o.maxEvents (iterationOutlines o.expandLoops owner children start) p
  | [], start, p => rfl
  | (offset, ⟨.iteration uid index parameters, length, inner⟩) :: children, start, p => by
      rw [lowerIterations, iterationOutlines, emitAll_append, emitAll_untilStop]
      simp only [emitAll_singleton, Item.emit, lowerChildren_eq o inner]
      cases stopOf (.iteration uid index parameters) length (addTicks start offset) with
      | error x => rfl
      | ok stop =>
          show (_ >>= fun p => if o.expandLoops = true then lowerIterations o owner children start p
            else .ok p) = _ >>= _
          refine congrArg _ (funext fun q => ?_)
          by_cases hexpand : o.expandLoops = true
          · rw [if_pos hexpand, if_pos hexpand]
            exact lowerIterations_eq o owner children start q
          · rw [if_neg hexpand, if_neg hexpand]
            rfl
  | (_, ⟨.root, _, _⟩) :: _, start, p => rfl
  | (_, ⟨.sect .., _, _⟩) :: _, start, p => rfl
  | (_, ⟨.loop .., _, _⟩) :: _, start, p => rfl
  | (_, ⟨.play .., _, _⟩) :: _, start, p => rfl
  | (_, ⟨.acquire .., _, _⟩) :: _, start, p => rfl
  | (_, ⟨.delay .., _, _⟩) :: _, start, p => rfl
  | (_, ⟨.setFrequency .., _, _⟩) :: _, start, p => rfl
  | (_, ⟨.initialFrequency .., _, _⟩) :: _, start, p => rfl
  | (_, ⟨.resetSoftwarePhase .., _, _⟩) :: _, start, p => rfl
  | (_, ⟨.resetHardwarePhase .., _, _⟩) :: _, start, p => rfl
termination_by structural children => children

end

/-! ## What emitting items leaves behind -/

mutual

/-- No fault in the item. -/
def Item.Sound : Item → Prop
  | .point .. => True
  | .span _ _ _ inside => SoundAll inside
  | .fault _ => False
termination_by structural i => i

/-- No fault in the items. -/
def SoundAll : List Item → Prop
  | [] => True
  | i :: is => i.Sound ∧ SoundAll is
termination_by structural is => is

end

mutual

/-- The number of starts in an item. -/
def Item.starts : Item → Nat
  | .point .. => 0
  | .span _ _ _ inside => 1 + startsAll inside
  | .fault _ => 0
termination_by structural i => i

/-- The number of starts in items. -/
def startsAll : List Item → Nat
  | [] => 0
  | i :: is => i.starts + startsAll is
termination_by structural is => is

end

mutual

/-- The events of an item that are not starts. -/
def Item.others : Item → Nat
  | .point .. => 1
  | .span _ _ _ inside => othersAll inside + 1
  | .fault _ => 0
termination_by structural i => i

/-- The events of items that are not starts. -/
def othersAll : List Item → Nat
  | [] => 0
  | i :: is => i.others + othersAll is
termination_by structural is => is

end

mutual

/-- What emitting an item adds to the list, `next` being the next id. -/
def Item.pending : Item → Nat → List Pending
  | .point time what, _ => [⟨none, time, what.kind⟩]
  | .span start stop what inside, next =>
      ⟨some next, start, what.first⟩ :: (pendingAll inside (next + 1) ++
        [⟨none, stop, what.last next⟩])
  | .fault _, _ => []
termination_by structural i => i

/-- What emitting items adds to the list, `next` being the next id. -/
def pendingAll : List Item → Nat → List Pending
  | [], _ => []
  | i :: is, next => i.pending next ++ pendingAll is (next + i.starts)
termination_by structural is => is

end

theorem push_ok {limit : Nat} {p q : Progress} {e : Pending} (h : p.push limit e = .ok q) :
    q.emitted.toList = p.emitted.toList ++ [e] ∧ q.nextId = p.nextId := by
  rw [Progress.push] at h
  split at h
  · cases h
  · cases h
    exact ⟨Array.toList_push, rfl⟩

mutual

/-- Emitting an item that succeeds appends its events and takes an id for each start. -/
theorem Item.emit_ok (limit : Nat) : ∀ (i : Item) (p q : Progress), i.emit limit p = .ok q →
    i.Sound ∧ q.emitted.toList = p.emitted.toList ++ i.pending p.nextId ∧
      q.nextId = p.nextId + i.starts
  | .point time what, p, q, h => by
      obtain ⟨hlist, hid⟩ := push_ok h
      exact ⟨trivial, hlist, hid⟩
  | .span start stop what inside, p, q, h => by
      obtain ⟨inner, hfirst, h⟩ := bind_ok h
      obtain ⟨outer, hinside, hlast⟩ := bind_ok h
      obtain ⟨hlist₁, hid₁⟩ := push_ok hfirst
      obtain ⟨hsound, hlist₂, hid₂⟩ := emitAll_ok limit inside inner outer hinside
      obtain ⟨hlist₃, hid₃⟩ := push_ok hlast
      rw [hid₁] at hlist₂ hid₂
      refine ⟨hsound, ?_, ?_⟩
      · rw [hlist₃, hlist₂, hlist₁]
        simp only [Item.pending, List.append_assoc, List.cons_append, List.nil_append]
      · show q.nextId = p.nextId + (1 + startsAll inside)
        rw [hid₃, hid₂]
        show p.nextId + 1 + startsAll inside = p.nextId + (1 + startsAll inside)
        omega
  | .fault error, p, q, h => by cases h
termination_by structural i => i

/-- Emitting items that succeeds appends their events and takes an id for each start. -/
theorem emitAll_ok (limit : Nat) : ∀ (is : List Item) (p q : Progress),
    emitAll limit is p = .ok q →
      SoundAll is ∧ q.emitted.toList = p.emitted.toList ++ pendingAll is p.nextId ∧
        q.nextId = p.nextId + startsAll is
  | [], p, q, h => by
      cases h
      exact ⟨trivial, by simp [pendingAll], rfl⟩
  | i :: is, p, q, h => by
      obtain ⟨r, hi, his⟩ := bind_ok h
      obtain ⟨hsound₁, hlist₁, hid₁⟩ := i.emit_ok limit p r hi
      obtain ⟨hsound₂, hlist₂, hid₂⟩ := emitAll_ok limit is r q his
      rw [hid₁] at hlist₂ hid₂
      refine ⟨⟨hsound₁, hsound₂⟩, ?_, ?_⟩
      · rw [hlist₂, hlist₁, List.append_assoc]
        rfl
      · rw [hid₂, Nat.add_assoc]
        rfl
termination_by structural is => is

end

/-! ## Items as events -/

mutual

/-- The events of an item: starts take ids from `next` on, the others from `other` on. -/
def Item.events (tick : Float) : Item → Nat → Nat → List Event
  | .point time what, _, other => [⟨other, .ofTicks tick time, what.kind⟩]
  | .span start stop what inside, next, other =>
      ⟨next, .ofTicks tick start, what.first⟩ :: (eventsAll tick inside (next + 1) other ++
        [⟨other + othersAll inside, .ofTicks tick stop, what.last next⟩])
  | .fault _, _, _ => []
termination_by structural i => i

/-- The events of items: starts take ids from `next` on, the others from `other` on. -/
def eventsAll (tick : Float) : List Item → Nat → Nat → List Event
  | [], _, _ => []
  | i :: is, next, other =>
      i.events tick next other ++ eventsAll tick is (next + i.starts) (other + i.others)
termination_by structural is => is

end

/-- The events of items in a row; those behind go on from where the counters stand. -/
theorem eventsAll_append (tick : Float) (as bs : List Item) (next other : Nat) :
    eventsAll tick (as ++ bs) next other = eventsAll tick as next other ++
      eventsAll tick bs (next + startsAll as) (other + othersAll as) := by
  induction as generalizing next other with
  | nil => rfl
  | cons a as ih =>
      rw [List.cons_append, eventsAll, ih, eventsAll, List.append_assoc, startsAll, othersAll,
        Nat.add_assoc, Nat.add_assoc]

mutual

theorem Item.stamp_pending (tick : Float) : ∀ (i : Item) (next other : Nat) (rest : List Pending),
    stamp tick other (i.pending next ++ rest) =
      i.events tick next other ++ stamp tick (other + i.others) rest
  | .point time what, next, other, rest => rfl
  | .span start stop what inside, next, other, rest => by
      simp only [Item.pending, Item.events, Item.others, List.cons_append, List.append_assoc, stamp,
        stamp_pendingAll tick inside, List.nil_append]
      rfl
  | .fault error, next, other, rest => rfl
termination_by structural i => i

/-- Numbering what was emitted gives the events of the items. -/
theorem stamp_pendingAll (tick : Float) : ∀ (is : List Item) (next other : Nat)
    (rest : List Pending), stamp tick other (pendingAll is next ++ rest) =
      eventsAll tick is next other ++ stamp tick (other + othersAll is) rest
  | [], next, other, rest => rfl
  | i :: is, next, other, rest => by
      simp only [pendingAll, eventsAll, othersAll, List.append_assoc, i.stamp_pending tick,
        stamp_pendingAll tick is, Nat.add_assoc]
termination_by structural is => is

end

/-! ## The score of an experiment -/

namespace Experiment

/-- The outline of the tree, if there is one. -/
def outline (x : Experiment) (expand : Bool) : List Item :=
  match x.root with
  | some root => root.outline expand 0 none
  | none => []

/-- The initial resets as items. -/
def resetItems (devices : List Device) : List Item :=
  devices.filterMap fun d =>
    match d.kind.traits with
    | some traits =>
        if traits.resetsPhase then some (.point 0 (.initialReset d.uid traits.resetDuration))
        else none
    | none => none

/-- All that the timeline of an experiment is made of: the initial resets, then the outline. -/
def score (x : Experiment) (expand : Bool) : List Item := resetItems x.devices ++ x.outline expand

/-- Every initial reset is a single event without an id. -/
theorem resetItems_eq (devices : List Device) (is : List Item) (next : Nat) :
    initialResets devices ++ pendingAll is next = pendingAll (resetItems devices ++ is) next ∧
      startsAll (resetItems devices ++ is) = startsAll is := by
  induction devices with
  | nil => exact ⟨rfl, rfl⟩
  | cons d ds ih =>
      simp only [initialResets, resetItems, List.filterMap_cons] at ih ⊢
      cases d.kind.traits with
      | none => exact ih
      | some traits =>
          by_cases hreset : traits.resetsPhase = true
          · simp only [if_pos hreset, List.cons_append, ih.1, pendingAll, startsAll, ih.2]
            exact ⟨rfl, Nat.zero_add _⟩
          · simp only [if_neg hreset]
            exact ih

/-- The events of an experiment are those of its score. -/
theorem flatten_ok {x : Experiment} {tick : Float} {o : LoweringOptions} {events : List Event}
    (h : x.flatten tick o = .ok events) :
    SoundAll (x.outline o.expandLoops) ∧
      events = eventsAll tick (x.score o.expandLoops) 0 (startsAll (x.score o.expandLoops)) := by
  obtain ⟨p, hlower, hstamp⟩ := bind_ok h
  have hemit : emitAll o.maxEvents (x.outline o.expandLoops) .nothing = .ok p := by
    rw [← hlower, lowerRoot, outline]
    cases x.root with
    | none => rfl
    | some root => exact (lower_eq o root 0 none .nothing).symm
  obtain ⟨hsound, hlist, hid⟩ := emitAll_ok _ _ _ _ hemit
  refine ⟨hsound, ?_⟩
  have hlist' : p.emitted.toList = pendingAll (x.outline o.expandLoops) 0 := hlist
  have hid' : p.nextId = startsAll (x.outline o.expandLoops) := by
    rw [hid]
    exact Nat.zero_add _
  have hstamp' : stamp tick p.nextId (initialResets x.devices ++ p.emitted.toList) = events :=
    Except.ok.inj hstamp
  obtain ⟨hpending, hstarts⟩ := resetItems_eq x.devices (x.outline o.expandLoops) 0
  rw [← hstamp', hlist', hid', hpending, ← hstarts]
  have hall := stamp_pendingAll tick (x.score o.expandLoops) 0
    (startsAll (x.score o.expandLoops)) []
  rw [List.append_nil] at hall
  rw [← score, hall]
  exact List.append_nil _

end Experiment

end PulseTimeline
