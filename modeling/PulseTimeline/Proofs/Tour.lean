/-
  A tree read on foot: the reference lowering in ticks.

  1. **Places** — a `Place` is a node together with the way down to it: the offsets on the way and
     the nodes above.  From the way alone its start is read off (the sum of the offsets, in 64 bits),
     its stop, and its section (that of the nearest section or loop above).

  2. **Tour** — the tour of a tree enters a node, tours its children one after the other, and leaves
     the node.  It comes by the sites of the tree and by no other nodes (`site_of_enter`).

  3. **Marks** — what is written down on entering a place and on leaving it: events in ticks, without
     ids, all their data written out.  The reference of an experiment are the initial resets of its
     devices at zero and the marks of its tour.

  4. **Lowering** — the walk of the lowering threads starts and sections through the tree, and the
     tour reads them off the way; both give the same events (`trace_layout_tour`).  So a flattened
     experiment is its reference, each time a double and multiplied by the tick
     (`flatten_eq_reference`).
-/
import Mathlib.Algebra.Ring.Int.Defs
import PulseTimeline.Proofs.Brackets
import PulseTimeline.Proofs.TimeOrder

namespace PulseTimeline

/-! ## Places -/

/-- A node as the tour comes to it. -/
structure Place where
  kind : NodeKind
  length : Option Int
  /-- Its offset from the node above, the offset of that node from the one above it, and so on. -/
  offsets : List Int
  /-- The nodes above, the nearest first. -/
  above : List NodeKind

/-- The section that a node gives to what it holds, if it is a section or a loop. -/
def NodeKind.section? : NodeKind → Option SectionUid
  | .sect uid => some uid
  | .loop owner _ => some owner
  | _ => none

namespace Place

variable (p : Place)

/-- The start in ticks: the sum of all offsets on the way from the root, in 64 bits. -/
def start : Int := p.offsets.sum.bmod 0x10000000000000000

/-- The stop in ticks: the sum of these offsets and the length, in 64 bits. -/
def stop : Int := (p.offsets.sum + p.length.getD 0).bmod 0x10000000000000000

/-- The section of the nearest section or loop above, if there is one. -/
def owner : Option SectionUid := p.above.findSome? NodeKind.section?

/-- Within the range of ticks the start is the plain sum. -/
theorem start_of_isTick (h : IsTick p.offsets.sum) : p.start = p.offsets.sum := bmod_of_isTick h

theorem stop_of_isTick (h : IsTick (p.offsets.sum + p.length.getD 0)) :
    p.stop = p.offsets.sum + p.length.getD 0 := bmod_of_isTick h

end Place

/-! ## Tour -/

/-- A step of a tour. -/
inductive Passage
  | enter (p : Place)
  | leave (p : Place)

mutual

/-- The tour of a tree, given the way down to its root: enter the root, tour what it holds, leave. -/
def Node.tour (expand : Bool) : Node → List Int → List NodeKind → List Passage
  | ⟨kind, length, children⟩, offsets, above =>
      .enter ⟨kind, length, offsets, above⟩ ::
        ((if kind.holds then childTours expand children kind.isLoop offsets (kind :: above) else [])
          ++ [.leave ⟨kind, length, offsets, above⟩])
termination_by structural n => n

/-- The tours of children, one after the other; of the children of a loop only the first one is
    toured if loops are not expanded. -/
def childTours (expand : Bool) :
    List (Int × Node) → Bool → List Int → List NodeKind → List Passage
  | [], _, _, _ => []
  | (offset, child) :: children, inLoop, offsets, above =>
      child.tour expand (offset :: offsets) above ++
        if expand || !inLoop then childTours expand children inLoop offsets above else []
termination_by structural children => children

end

/-- The tour of an experiment, if it has a tree. -/
def Experiment.tour (x : Experiment) (expand : Bool) : List Passage :=
  match x.root with
  | some root => root.tour expand [] []
  | none => []

/-! ## Marks -/

/-- An event in ticks, its id and that of its start left aside. -/
structure Mark where
  time : Int
  kind : EventKind

/-- The event of a mark, a tick lasting `tick` seconds. -/
def Mark.stamped (tick : Float) (k : Mark) : Event := ⟨0, .ofTicks tick k.time, k.kind⟩

namespace NodeKind

/-- What is written down on entering a node.  A node that sets frequencies is done with at once: a
    start and its end for each of them. -/
def opening (start stop : Int) (owner : Option SectionUid) : NodeKind → List Mark
  | .root => []
  | .sect uid => [⟨start, .sectionStart uid⟩]
  | .loop own count => [⟨start, .loopStart own count⟩]
  | .iteration own index parameters => [⟨start, .iterationStart own index parameters⟩]
  | .play pulse => [⟨start, .pulseStart .play
      { signal := pulse.signal, owner, pulse := pulse.pulse, amplitude := pulse.amplitude,
        handle := none, phase := pulse.phase, phaseIncrement := pulse.phaseIncrement,
        phaseSet := pulse.phaseSet, oscillatorFrequency := none, oscillatorPhase := none }⟩]
  | .acquire signal handle kernel => [⟨start, .pulseStart .acquire
      { signal, owner, pulse := kernel, amplitude := none, handle, phase := 0.0,
        phaseIncrement := none, phaseSet := none, oscillatorFrequency := none,
        oscillatorPhase := none }⟩]
  | .delay signal phaseIncrement phaseSet => [⟨start, .pulseStart .delay
      { signal, owner, pulse := none, amplitude := none, handle := none, phase := 0.0,
        phaseIncrement, phaseSet, oscillatorFrequency := none, oscillatorPhase := none }⟩]
  | .setFrequency own settings index => settings.flatMap fun s =>
      [⟨start, .setFrequencyStart ⟨s.oscillator.uid, s.oscillator.signals, s.value, s.parameter,
        some own, index⟩⟩,
        ⟨stop, .setFrequencyEnd s.oscillator.uid s.oscillator.signals 0⟩]
  | .initialFrequency settings => settings.map fun s =>
      ⟨start, .initialFrequency ⟨s.oscillator.uid, s.oscillator.signals, s.value, s.parameter,
        owner, 0⟩⟩
  | .resetSoftwarePhase own => [⟨start, .resetSoftwarePhase (own <|> owner)⟩]
  | .resetHardwarePhase signals => [⟨start, .resetHardwarePhase signals⟩]

/-- What is written down on leaving a node. -/
def closing (stop : Int) : NodeKind → List Mark
  | .sect uid => [⟨stop, .sectionEnd uid 0⟩]
  | .loop own _ => [⟨stop, .loopEnd own 0⟩]
  | .iteration own index _ => [⟨stop, .iterationEnd own index 0⟩]
  | .play pulse => [⟨stop, .pulseEnd .play pulse.signal 0⟩]
  | .acquire signal _ _ => [⟨stop, .pulseEnd .acquire signal 0⟩]
  | .delay signal _ _ => [⟨stop, .pulseEnd .delay signal 0⟩]
  | .root | .setFrequency .. | .initialFrequency _ | .resetSoftwarePhase _
  | .resetHardwarePhase _ => []

end NodeKind

/-- What is written down on a step of a tour. -/
def Passage.marks : Passage → List Mark
  | .enter p => p.kind.opening p.start p.stop p.owner
  | .leave p => p.kind.closing p.stop

/-- The initial reset of a device at zero, if its kind can reset the phase of its oscillators. -/
def Device.resetMark? (d : Device) : Option Mark :=
  (d.kind.traits.filter (·.resetsPhase)).map fun traits =>
    ⟨0, .initialReset d.uid traits.resetDuration⟩

/-- The reference of an experiment: the initial resets, then what is written down on its tour. -/
def Experiment.marks (x : Experiment) (expand : Bool) : List Mark :=
  x.devices.filterMap Device.resetMark? ++ (x.tour expand).flatMap Passage.marks

/-! ## Lowering -/

/-- Inside of a section or a loop, its section is the nearest; inside of any other node, the section
    around the node. -/
theorem NodeKind.ownerInside_eq (kind : NodeKind) (above : List NodeKind) :
    kind.ownerInside (above.findSome? section?) = (kind :: above).findSome? section? := by
  rw [List.findSome?_cons]
  cases kind <;> rfl

/-- Empty spans leave a start and an end each. -/
theorem traceAll_spans (tick : Float) {α : Type} (start stop : Int) (what : α → Lasting)
    (as : List α) : traceAll tick (as.map fun a => .span start stop (what a) []) =
      as.flatMap fun a => [⟨0, .ofTicks tick start, (what a).first⟩,
        ⟨0, .ofTicks tick stop, (what a).last 0⟩] := by
  induction as with
  | nil => rfl
  | cons a as ih =>
      rw [List.map_cons, List.flatMap_cons, traceAll, ih]
      rfl

/-- Points leave one event each. -/
theorem traceAll_points (tick : Float) {α : Type} (time : Int) (what : α → Momentary)
    (as : List α) : traceAll tick (as.map fun a => .point time (what a)) =
      as.map fun a => ⟨0, .ofTicks tick time, (what a).kind⟩ := by
  induction as with
  | nil => rfl
  | cons a as ih =>
      rw [List.map_cons, List.map_cons, traceAll, ih]
      rfl

/-- A node whose end is known, if it has one, adds what is written down on entering it and on
    leaving it, around what it holds. -/
theorem NodeKind.trace_items (tick : Float) (kind : NodeKind) {length : Option Int}
    (h : kind.lasts = true → length.isSome = true) (start : Int) (owner : Option SectionUid)
    (inside : List Item) :
    traceAll tick (kind.items length start owner inside) =
      (kind.opening start (addTicks start (length.getD 0)) owner).map (Mark.stamped tick) ++
        ((if kind.holds then traceAll tick inside else []) ++
          (kind.closing (addTicks start (length.getD 0))).map (Mark.stamped tick)) := by
  cases kind with
  | root => exact (List.append_nil _).symm
  | initialFrequency settings =>
      refine (traceAll_points tick _ _ settings).trans ?_
      show _ = (settings.map _).map _ ++ []
      rw [List.append_nil, List.map_map]
      rfl
  | resetSoftwarePhase own => rfl
  | resetHardwarePhase signals => rfl
  | setFrequency own settings iteration =>
      obtain ⟨ticks, rfl⟩ := Option.isSome_iff_exists.mp (h rfl)
      refine (traceAll_spans tick _ _ _ settings).trans ?_
      show _ = (settings.flatMap _).map _ ++ []
      rw [List.append_nil, List.map_flatMap]
      rfl
  | sect _ | loop _ _ | iteration _ _ _ =>
      obtain ⟨ticks, rfl⟩ := Option.isSome_iff_exists.mp (h rfl)
      exact traceAll_span tick _ _ _ inside
  | play _ | acquire _ _ _ | delay _ _ _ =>
      obtain ⟨ticks, rfl⟩ := Option.isSome_iff_exists.mp (h rfl)
      rfl

/-- The marks of a node are those of its opening, of what it holds, and of its closing. -/
theorem Node.marks_tour (expand : Bool) (kind : NodeKind) (length : Option Int)
    (children : List (Int × Node)) (offsets : List Int) (above : List NodeKind) :
    ((Node.mk kind length children).tour expand offsets above).flatMap Passage.marks =
      (Passage.enter ⟨kind, length, offsets, above⟩).marks ++
        ((if kind.holds then
          (childTours expand children kind.isLoop offsets (kind :: above)).flatMap Passage.marks
        else []) ++ (Passage.leave ⟨kind, length, offsets, above⟩).marks) := by
  rw [Node.tour, List.flatMap_cons, List.flatMap_append]
  split
  · rw [List.flatMap_singleton]
  · rw [List.flatMap_singleton]
    rfl

/-- Lists with equal images are related element by element. -/
theorem forall₂_of_map_eq {α β γ : Type} {f : α → γ} {g : β → γ} {as : List α} {bs : List β}
    (h : as.map f = bs.map g) : List.Forall₂ (fun a b => f a = g b) as bs := by
  have heq : List.Forall₂ Eq (as.map f) (bs.map g) := h ▸ List.forall₂_refl _
  exact List.forall₂_map_left_iff.mp (List.forall₂_map_right_iff.mp heq)

mutual

/-- A tree whose sites are well placed lowers to what is written down on its tour. -/
theorem Node.trace_layout_tour (tick : Float) (expand : Bool) : ∀ (n : Node) (inLoop : Bool)
    (offsets : List Int) (above : List NodeKind), (∀ s ∈ n.sites expand inLoop, s.WellPlaced) →
      traceAll tick (n.layout expand inLoop (offsets.sum.bmod 0x10000000000000000)
          (above.findSome? NodeKind.section?)) =
        ((n.tour expand offsets above).flatMap Passage.marks).map (Mark.stamped tick)
  | ⟨kind, length, children⟩, inLoop, offsets, above, h => by
      rw [Node.sites, List.forall_mem_cons] at h
      obtain ⟨⟨hresolved, hnested⟩, hchildren⟩ := h
      rw [Node.layout, kind.placed_of_nested hnested, kind.ownerInside_eq,
        kind.trace_items tick hresolved, addTicks_bmod, Node.marks_tour, List.map_append,
        List.map_append]
      refine congrArg (_ ++ ·) (congrArg (· ++ _) ?_)
      split
      · rename_i hholds
        rw [if_pos hholds] at hchildren
        rw [trace_childLayouts_tour tick expand children kind.isLoop offsets _ hchildren]
      · rfl
termination_by structural n => n

theorem trace_childLayouts_tour (tick : Float) (expand : Bool) :
    ∀ (children : List (Int × Node)) (inLoop : Bool) (offsets : List Int)
      (above : List NodeKind), (∀ s ∈ childSites expand children inLoop, s.WellPlaced) →
        traceAll tick (childLayouts expand children inLoop (offsets.sum.bmod 0x10000000000000000)
            (above.findSome? NodeKind.section?)) =
        ((childTours expand children inLoop offsets above).flatMap Passage.marks).map
          (Mark.stamped tick)
  | [], inLoop, offsets, above, h => rfl
  | (offset, child) :: children, inLoop, offsets, above, h => by
      rw [childSites, List.forall_mem_append] at h
      obtain ⟨hchild, hrest⟩ := h
      -- The lowering adds the offset of the child to the start so far, the tour puts it on the way.
      have htour := Node.trace_layout_tour tick expand child inLoop (offset :: offsets) above hchild
      rw [List.sum_cons, Int.add_comm, ← addTicks_bmod] at htour
      rw [childLayouts, childTours, traceAll_append, htour, goesOn_of_wellPlaced hchild,
        List.flatMap_append, List.map_append]
      split
      · rename_i hgoes
        rw [if_pos hgoes] at hrest
        rw [trace_childLayouts_tour tick expand children inLoop offsets above hrest]
      · rfl
termination_by structural children => children

end

mutual

/-- The places that a tour enters are the sites of the tree. -/
theorem Node.site_of_enter (expand : Bool) {p : Place} : ∀ (n : Node) (inLoop : Bool)
    (offsets : List Int) (above : List NodeKind), .enter p ∈ n.tour expand offsets above →
      ∃ b, ⟨p.kind, p.length, b⟩ ∈ n.sites expand inLoop
  | ⟨kind, length, children⟩, inLoop, offsets, above, h => by
      rw [Node.tour, List.mem_cons, List.mem_append, List.mem_singleton] at h
      rw [Node.sites]
      rcases h with h | h | h
      · cases h
        exact ⟨inLoop, List.mem_cons_self⟩
      · split at h
        · rename_i hholds
          obtain ⟨b, hb⟩ := site_of_enter_children expand children kind.isLoop offsets _ h
          exact ⟨b, List.mem_cons_of_mem _ (by rwa [if_pos hholds])⟩
        · cases h
      · cases h
termination_by structural n => n

theorem site_of_enter_children (expand : Bool) {p : Place} : ∀ (children : List (Int × Node))
    (inLoop : Bool) (offsets : List Int) (above : List NodeKind),
    .enter p ∈ childTours expand children inLoop offsets above →
      ∃ b, ⟨p.kind, p.length, b⟩ ∈ childSites expand children inLoop
  | [], inLoop, offsets, above, h => by cases h
  | (offset, child) :: children, inLoop, offsets, above, h => by
      rw [childTours, List.mem_append] at h
      rw [childSites]
      rcases h with h | h
      · obtain ⟨b, hb⟩ := Node.site_of_enter expand child inLoop (offset :: offsets) above h
        exact ⟨b, List.mem_append_left _ hb⟩
      · split at h
        · rename_i hgoes
          obtain ⟨b, hb⟩ := site_of_enter_children expand children inLoop offsets above h
          exact ⟨b, List.mem_append_right _ (by rwa [if_pos hgoes])⟩
        · cases h
termination_by structural children => children

end

/-- The initial resets leave one event for each device that can be reset. -/
theorem trace_resetItems (tick : Float) (devices : List Device) :
    traceAll tick (Experiment.resetItems devices) =
      (devices.filterMap Device.resetMark?).map (Mark.stamped tick) := by
  unfold Experiment.resetItems
  induction devices with
  | nil => rfl
  | cons d ds ih =>
      rw [List.filterMap_cons, List.filterMap_cons]
      unfold Device.resetMark? at ih ⊢
      cases d.kind.traits with
      | none => exact ih
      | some traits =>
          cases hreset : traits.resetsPhase with
          | false =>
              simp only [hreset, Option.filter, Option.map_none, Bool.false_eq_true, if_false]
              exact ih
          | true =>
              simp only [hreset, Option.filter, Option.map_some, if_true]
              exact congrArg _ ih

theorem Experiment.trace_outline_tour {x : Experiment} {tick : Float} {expand : Bool}
    (h : ∀ s ∈ x.sites expand, s.WellPlaced) : traceAll tick (x.outline expand) =
      ((x.tour expand).flatMap Passage.marks).map (Mark.stamped tick) := by
  unfold sites at h
  unfold outline tour
  cases hroot : x.root with
  | none => rfl
  | some root =>
      rw [hroot] at h
      show traceAll tick (root.outline expand 0 none) = _
      rw [root.outline_eq]
      exact root.trace_layout_tour tick expand false [] [] h

/-- If an experiment is flattened, then its events are those of its reference, in order: each is of
    the kind that was written down, and at the double of the time that was written down, times the
    tick.  All nodes on the tour that have an end have a known length, and where a sum of offsets is
    within the range of ticks, it is the start.  Each end carries the id of the start that it
    closes. -/
theorem flatten_eq_reference {x : Experiment} {tick : Float} {o : LoweringOptions}
    {events : List Event} (h : x.flatten tick o = .ok events) :
    List.Forall₂ (fun e k => e.kind.unchained = k.kind ∧ e.time.Holds (Float.ofInt k.time * tick))
      events (x.marks o.expandLoops) ∧
    (∀ p, .enter p ∈ x.tour o.expandLoops →
      (p.kind.lasts = true → p.length.isSome = true) ∧
      (IsTick p.offsets.sum → p.start = p.offsets.sum) ∧
      (IsTick (p.offsets.sum + p.length.getD 0) →
        p.stop = p.offsets.sum + p.length.getD 0)) ∧
    Nested [] events := by
  obtain ⟨hsound, hevents⟩ := Experiment.flatten_ok h
  have hsites := (x.sound_outline o.expandLoops).mp hsound
  refine ⟨?_, ?_, ?_⟩
  · have hstamped : events.map Event.erased =
        (x.marks o.expandLoops).map (Mark.stamped tick) := by
      rw [erased_flatten h]
      unfold Experiment.score Experiment.marks
      rw [traceAll_append, trace_resetItems, Experiment.trace_outline_tour hsites, List.map_append]
    refine (forall₂_of_map_eq hstamped).imp fun e k hek => ?_
    obtain ⟨-, htime, hkind⟩ := Event.mk.inj hek
    exact ⟨hkind, htime ▸ Seconds.holds_ofTicks tick k.time⟩
  · intro p hp
    refine ⟨fun hlasts => ?_, p.start_of_isTick, p.stop_of_isTick⟩
    unfold Experiment.tour at hp
    unfold Experiment.sites at hsites
    cases hroot : x.root with
    | none =>
        rw [hroot] at hp
        cases hp
    | some root =>
        rw [hroot] at hp hsites
        obtain ⟨b, hb⟩ := root.site_of_enter o.expandLoops false [] [] hp
        exact (hsites _ hb).resolved hlasts
  · have hread := nested_eventsAll tick (x.score o.expandLoops) 0
      (startsAll (x.score o.expandLoops)) [] []
    rw [List.append_nil, ← hevents] at hread
    exact hread.mpr rfl

/-- A play, then a section with a loop of two iterations, each with a play and with a section that
    holds a play; the section of the loop is neither of the two.  At its start the outer section
    resets the phases. -/
def nook : Experiment :=
  let play : Node :=
    .leaf (.play ⟨⟨⟨0⟩⟩, some ⟨⟨4⟩⟩, some ⟨0.5, -0.5⟩, 0.25, some 0.5, some 0.75⟩) (some 10)
  let turn (index : Nat) : Node :=
    ⟨.iteration ⟨⟨8⟩⟩ index [], some 30, [
      (5, play), (15, ⟨.sect ⟨⟨9⟩⟩, some 10, [(0, play)]⟩)]⟩
  { duet with root := some ⟨.root, none, [
      (0, play),
      (10, ⟨.sect ⟨⟨7⟩⟩, some 70, [
        (10, ⟨.loop ⟨⟨8⟩⟩ 2, some 60, [(0, turn 0), (30, turn 1)]⟩),
        (0, .leaf (.resetSoftwarePhase none) none)]⟩)]⟩ }

/-- The flattened example, a tick lasting a nanosecond. -/
def nookEvents : List Event := (nook.flatten 1e-9 ⟨true, 23⟩).toOption.getD []

/-- The first play is filed under no section, the others under that of the loop and that of the inner
    section in turn; apart from this all five say the same. -/
theorem nook_reference :
    nook.flatten 1e-9 ⟨true, 23⟩ = .ok nookEvents ∧
    (List.Forall₂
        (fun e k => e.kind.unchained = k.kind ∧ e.time.Holds (Float.ofInt k.time * 1e-9))
        nookEvents (nook.marks true) ∧
      (∀ p, .enter p ∈ nook.tour true →
        (p.kind.lasts = true → p.length.isSome = true) ∧
        (IsTick p.offsets.sum → p.start = p.offsets.sum) ∧
        (IsTick (p.offsets.sum + p.length.getD 0) →
          p.stop = p.offsets.sum + p.length.getD 0)) ∧
      Nested [] nookEvents) ∧
    nookEvents.map (fun e => e.time.toFloat) = [0.0, 0.0, 1e-8, 1e-8, 2e-8, 2e-8,
      2.5000000000000002e-8, 3.5e-8, 3.5e-8, 3.5e-8, 4.5000000000000006e-8, 4.5000000000000006e-8,
      5.0000000000000004e-8, 5.0000000000000004e-8, 5.5e-8, 6.5e-8, 6.5e-8, 6.5e-8,
      7.500000000000001e-8, 7.500000000000001e-8, 8e-8, 8e-8, 1e-8, 8e-8] ∧
    nookEvents.filterMap (fun e => e.kind.pulse?) =
      [none, some ⟨⟨8⟩⟩, some ⟨⟨9⟩⟩, some ⟨⟨8⟩⟩, some ⟨⟨9⟩⟩].map fun owner =>
        (.play, { signal := ⟨⟨0⟩⟩, owner, pulse := some ⟨⟨4⟩⟩, amplitude := some ⟨0.5, -0.5⟩,
                  handle := none, phase := 0.25, phaseIncrement := some 0.5, phaseSet := some 0.75,
                  oscillatorFrequency := none, oscillatorPhase := none }) := by
  have hflatten : nook.flatten 1e-9 ⟨true, 23⟩ = .ok nookEvents := by decide +kernel
  exact ⟨hflatten, flatten_eq_reference hflatten, by decide +kernel, by decide +kernel⟩

end PulseTimeline
