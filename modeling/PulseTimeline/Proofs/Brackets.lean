/-
  Numbers and brackets of a lowered experiment.

  1. **Reading** — `Nested` reads a list of events with a stack: a start goes on it, an end takes
     off the start that it names.

  2. **Brackets** — what an item lowers to is read without a trace on the stack
     (`nested_eventsAll`), whatever lies on the stack and whatever follows.  Hence a whole list is
     read from the empty stack to the empty stack.

  3. **Initial resets** — only the devices give rise to initial resets, never the tree
     (`noResets_layout`), so they are the first events of the list.

  4. **Numbers** — `Numbered` says which ids are used and where they stand
     (`numbered_flatten`).
-/
import PulseTimeline.Proofs.Expansion

namespace PulseTimeline

/-! ## Reading with a stack -/

/-- Read events from the front with a stack of starts, the one opened last on top.  A start goes on
    the stack.  An end takes the top off the stack, which must be the start that it names, of the
    same kind and about the same thing.  All other events leave the stack alone.  When everything is
    read, the stack is empty. -/
def Nested : List Event → List Event → Prop
  | stack, [] => stack = []
  | stack, e :: es =>
      if e.kind.isStart then Nested (e :: stack) es
      else
        match e.kind.chain?, stack with
        | none, stack => Nested stack es
        | some _, [] => False
        | some chain, start :: stack =>
            start.id = chain ∧ start.kind.Opens e.kind ∧ Nested stack es

/-- A start is put on the stack. -/
theorem nested_start {e : Event} (h : e.kind.isStart = true) (stack es : List Event) :
    Nested stack (e :: es) ↔ Nested (e :: stack) es := by
  simp only [Nested, h, if_true]

/-- What is neither a start nor an end leaves the stack. -/
theorem nested_moment {e : Event} (hs : e.kind.isStart = false) (hc : e.kind.chain? = none)
    (stack es : List Event) : Nested stack (e :: es) ↔ Nested stack es := by
  simp only [Nested, hs, hc, Bool.false_eq_true, if_false]

/-- An end takes its start off the stack. -/
theorem nested_end {start e : Event} (hs : e.kind.isStart = false)
    (hc : e.kind.chain? = some start.id) (hopens : start.kind.Opens e.kind)
    (stack es : List Event) : Nested (start :: stack) (e :: es) ↔ Nested stack es := by
  simp only [Nested, hs, hc, Bool.false_eq_true, if_false]
  exact ⟨fun h => h.2.2, fun h => ⟨trivial, hopens, h⟩⟩

/-! ## Brackets -/

mutual

/-- The events of an item leave the stack as they found it. -/
theorem Item.nested_events (tick : Float) : ∀ (i : Item) (next other : Nat)
    (stack rest : List Event),
    Nested stack (i.events tick next other ++ rest) ↔ Nested stack rest
  | .point time what, next, other, stack, rest =>
      nested_moment what.isStart_kind what.chain?_kind stack rest
  | .span start stop what inside, next, other, stack, rest => by
      rw [Item.events, List.cons_append, List.append_assoc, nested_start what.isStart_first,
        nested_eventsAll tick inside]
      exact nested_end (what.isStart_last next) (what.chain?_last next)
        (what.first_opens_last next) stack rest
  | .fault error, next, other, stack, rest => Iff.rfl
termination_by structural i => i

/-- The events of items are read without a trace on the stack. -/
theorem nested_eventsAll (tick : Float) : ∀ (is : List Item) (next other : Nat)
    (stack rest : List Event),
    Nested stack (eventsAll tick is next other ++ rest) ↔ Nested stack rest
  | [], next, other, stack, rest => Iff.rfl
  | i :: is, next, other, stack, rest => by
      rw [eventsAll, List.append_assoc, i.nested_events tick, nested_eventsAll tick is]
termination_by structural is => is

end

/-! ## Initial resets -/

/-- No onset of the items is an initial reset. -/
def NoResets (is : List Item) : Prop := ∀ q ∈ onsetsAll is, q.2.type ≠ .initialReset

theorem noResets_nil : NoResets [] := List.forall_mem_nil _

theorem noResets_append {as bs : List Item} (ha : NoResets as) (hb : NoResets bs) :
    NoResets (as ++ bs) := by
  unfold NoResets
  rw [onsetsAll_append]
  exact List.forall_mem_append.mpr ⟨ha, hb⟩

theorem noResets_span {inside : List Item} (h : NoResets inside) (start stop : Int)
    (what : Lasting) : NoResets [.span start stop what inside] := by
  unfold NoResets
  rw [onsetsAll, Item.onsets, onsetsAll, List.append_nil]
  refine List.forall_mem_cons.mpr ⟨?_, h⟩
  cases what <;> exact nofun

theorem noResets_map {α : Type} {item : α → Item} {as : List α}
    (h : ∀ a, NoResets [item a]) : NoResets (as.map item) := by
  induction as with
  | nil => exact noResets_nil
  | cons a as ih => exact noResets_append (h a) ih

/-- No node of a tree stands for an initial reset, so there is none if there is none inside. -/
theorem NodeKind.noResets_items {inside : List Item} (h : NoResets inside) (kind : NodeKind)
    (length : Option Int) (start : Int) (owner : Option SectionUid) :
    NoResets (kind.items length start owner inside) := by
  cases kind with
  | root => exact h
  | sect _ | loop _ _ | iteration _ _ _ =>
      cases length with
      | none => exact noResets_nil
      | some ticks => exact noResets_span h _ _ _
  | play _ | acquire _ _ _ | delay _ _ _ =>
      cases length with
      | none => exact noResets_nil
      | some ticks => exact noResets_span noResets_nil _ _ _
  | setFrequency _ settings _ =>
      cases length with
      | none => exact noResets_nil
      | some ticks => exact noResets_map fun _ => noResets_span noResets_nil _ _ _
  | initialFrequency settings =>
      refine noResets_map fun _ q hq => ?_
      cases List.mem_singleton.mp hq
      exact nofun
  | resetSoftwarePhase _ | resetHardwarePhase _ =>
      intro q hq
      cases List.mem_singleton.mp hq
      exact nofun

mutual

/-- A tree gives rise to no initial reset. -/
theorem Node.noResets_layout (expand : Bool) : ∀ (n : Node) (inLoop : Bool) (start : Int)
    (owner : Option SectionUid), NoResets (n.layout expand inLoop start owner)
  | ⟨kind, length, children⟩, inLoop, start, owner => by
      have hinside := noResets_childLayouts expand children kind.isLoop start
        (kind.ownerInside owner)
      rw [Node.layout]
      by_cases hnested : inLoop = kind.isIteration
      · rw [kind.placed_of_nested hnested]
        exact kind.noResets_items hinside length start owner
      · obtain ⟨error, herror⟩ := kind.placed_of_stray hnested start
          (kind.items length start owner
            (childLayouts expand children kind.isLoop start (kind.ownerInside owner)))
        rw [herror]
        exact noResets_nil
termination_by structural n => n

theorem noResets_childLayouts (expand : Bool) : ∀ (children : List (Int × Node))
    (inLoop : Bool) (start : Int) (owner : Option SectionUid),
    NoResets (childLayouts expand children inLoop start owner)
  | [], inLoop, start, owner => noResets_nil
  | (offset, child) :: children, inLoop, start, owner => by
      rw [childLayouts]
      refine noResets_append
        (Node.noResets_layout expand child inLoop (addTicks start offset) owner) ?_
      split
      · exact noResets_childLayouts expand children inLoop start owner
      · exact noResets_nil
termination_by structural children => children

end

/-- The initial resets of an experiment do not come from its tree. -/
theorem Experiment.noResets_outline (x : Experiment) (expand : Bool) :
    NoResets (x.outline expand) := by
  unfold outline
  cases x.root with
  | none => exact noResets_nil
  | some root =>
      show NoResets (root.outline expand 0 none)
      rw [root.outline_eq]
      exact root.noResets_layout expand false 0 none

/-- An initial reset ends nothing. -/
theorem chain?_of_initialReset {e : Event} (h : e.type = .initialReset) : e.kind.chain? = none := by
  obtain ⟨id, time, kind⟩ := e
  cases kind <;> first | rfl | cases h

/-- Items without initial resets lower to no initial reset. -/
theorem NoResets.events {is : List Item} (h : NoResets is) (tick : Float) (next other : Nat) :
    ∀ e ∈ eventsAll tick is next other, e.type ≠ .initialReset := by
  intro e he hreset
  have honset : e ∈ onsetsOf (eventsAll tick is next other) :=
    List.mem_filter.mpr ⟨he, by rw [chain?_of_initialReset hreset]; rfl⟩
  have hmem := List.mem_map_of_mem (f := Event.content) honset
  rw [onsets_eventsAll] at hmem
  obtain ⟨q, hq, hcontent⟩ := List.mem_map.mp hmem
  refine h q hq ?_
  rw [← hreset]
  exact congrArg (fun c : Seconds × EventKind => c.2.type) hcontent

/-- The items of the initial resets lower to initial resets only. -/
theorem type_resetItems (tick : Float) (devices : List Device) (next other : Nat) :
    ∀ e ∈ eventsAll tick (Experiment.resetItems devices) next other, e.type = .initialReset := by
  have hpoints : ∀ is : List Item, (∀ i ∈ is, ∃ d duration, i = .point 0 (.initialReset d duration)) →
      ∀ next other, ∀ e ∈ eventsAll tick is next other, e.type = .initialReset := by
    intro is
    induction is with
    | nil => exact fun _ _ _ => List.forall_mem_nil _
    | cons i is ih =>
        intro h next other
        obtain ⟨⟨d, duration, rfl⟩, his⟩ := List.forall_mem_cons.mp h
        rw [eventsAll]
        exact List.forall_mem_append.mpr ⟨List.forall_mem_singleton.mpr rfl, ih his _ _⟩
  refine hpoints _ (fun i hi => ?_) next other
  obtain ⟨d, _, hd⟩ := List.mem_filterMap.mp hi
  split at hd
  · split at hd
    · cases hd
      exact ⟨_, _, rfl⟩
    · cases hd
  · cases hd

/-! ## Numbers -/

/-- Which ids the events of a list have: those from zero on, the starts first. -/
structure Numbered (events : List Event) : Prop where
  /-- The starts are numbered along the list, from zero on. -/
  starts : (startsOf events).map Event.id = List.range (startsOf events).length
  /-- The other events are numbered along the list, behind all starts and up to the last id. -/
  others : (othersOf events).map Event.id =
    List.range' (startsOf events).length (events.length - (startsOf events).length)
  /-- All ids below the length of the list are in use, each once. -/
  dense : (events.map Event.id).Perm (List.range events.length)
  /-- The initial resets come before all other events. -/
  resetsFirst : ∃ resets rest, events = resets ++ rest ∧
    (∀ e ∈ resets, e.type = .initialReset) ∧ ∀ e ∈ rest, e.type ≠ .initialReset

section Lowered

variable {x : Experiment} {tick : Float} {o : LoweringOptions} {events : List Event}

/-- The initial resets of a flattened experiment come first. -/
theorem resetsFirst_flatten (h : x.flatten tick o = .ok events) :
    ∃ resets rest, events = resets ++ rest ∧
      (∀ e ∈ resets, e.type = .initialReset) ∧ ∀ e ∈ rest, e.type ≠ .initialReset := by
  obtain ⟨_, rfl⟩ := Experiment.flatten_ok h
  exact ⟨_, _, eventsAll_append tick (Experiment.resetItems x.devices) (x.outline o.expandLoops) _ _,
    type_resetItems tick x.devices _ _, (x.noResets_outline o.expandLoops).events tick _ _⟩

/-- An event is a start or it is not. -/
theorem length_startsOf_add (events : List Event) :
    (startsOf events).length + (othersOf events).length = events.length := by
  have h := (ids_perm events).length_eq
  rw [List.length_append, List.length_map, List.length_map, List.length_map] at h
  exact h.symm

/-- The ids of a flattened experiment. -/
theorem numbered_flatten (h : x.flatten tick o = .ok events) : Numbered events := by
  have hstarts := map_id_startsOf_flatten h
  have hothers := map_id_othersOf_flatten h
  have hlen := length_startsOf_add events
  have hk : startsAll (x.score o.expandLoops) = (startsOf events).length := by
    rw [← List.length_map (f := Event.id), hstarts, List.length_range']
  have hr : othersAll (x.score o.expandLoops) = (othersOf events).length := by
    rw [← List.length_map (f := Event.id), hothers, List.length_range']
  rw [hk] at hstarts
  rw [hk, hr] at hothers
  refine ⟨?_, ?_, ?_, resetsFirst_flatten h⟩
  · rw [hstarts, List.range_eq_range']
  · rw [hothers, ← hlen, Nat.add_sub_cancel_left]
  · refine (ids_perm events).trans (List.Perm.of_eq ?_)
    rw [hstarts, hothers, List.range_eq_range', ← hlen, ← List.range'_append_1, Nat.zero_add]

end Lowered

/-- A flattened experiment uses the ids from zero on, starts first, and its brackets match: read
    with a stack, every end takes off the start that it names. -/
theorem flatten_numbered_and_nested {x : Experiment} {tick : Float} {o : LoweringOptions}
    {events : List Event} (h : x.flatten tick o = .ok events) :
    Numbered events ∧ Nested [] events := by
  refine ⟨numbered_flatten h, ?_⟩
  obtain ⟨_, rfl⟩ := Experiment.flatten_ok h
  have hread := nested_eventsAll tick (x.score o.expandLoops) 0
    (startsAll (x.score o.expandLoops)) [] []
  rw [List.append_nil] at hread
  exact hread.mpr rfl

/-- In the example with nested loops, thirteen spans are numbered and matched. -/
theorem rounds_nested :
    rounds.flatten 1e-9 ⟨true, 26⟩ = .ok roundsExpanded ∧
      (Numbered roundsExpanded ∧ Nested [] roundsExpanded) ∧
      (startsOf roundsExpanded).length = 13 ∧ roundsExpanded.length = 27 := by
  have hflatten : rounds.flatten 1e-9 ⟨true, 26⟩ = .ok roundsExpanded := by decide +kernel
  exact ⟨hflatten, flatten_numbered_and_nested hflatten, by decide +kernel, by decide +kernel⟩

end PulseTimeline
