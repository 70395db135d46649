/-
  Lowering without expanding loops.

  1. **Cut** — a tree is cut by keeping the first child of every loop only.  To lower a tree without
     expanding its loops is to lower the cut tree with all its loops expanded: both have the same
     outline (`outline_cut`), so ids, limit and errors need no further look
     (`flatten_unexpanded`).

  2. **Trace** — up to ids, the events of items are their trace, which needs no counters
     (`erased_eventsAll`).

  3. **Fewer events** — without expansion the walk leaves out children, and nothing else: the trace
     is a sublist (`Node.trace_layout_sublist`), and so are the sites that anything is asked of
     (`Node.sites_sublist`).  Hence what succeeds with expansion succeeds without it
     (`unexpanded_of_expanded`).
-/
import PulseTimeline.Proofs.Success

namespace PulseTimeline

/-! ## Cutting a tree -/

/-- The children that are kept: the first one of a loop, and all of any other node. -/
def kept (inLoop : Bool) (children : List (Int × Node)) : List (Int × Node) :=
  if inLoop then children.take 1 else children

mutual

/-- The tree with only the first child of every loop. -/
def Node.cut : Node → Node
  | ⟨kind, length, children⟩ => ⟨kind, length, kept kind.isLoop (cutAll children)⟩
termination_by structural n => n

/-- Every child cut. -/
def cutAll : List (Int × Node) → List (Int × Node)
  | [] => []
  | (offset, child) :: children => (offset, child.cut) :: cutAll children
termination_by structural children => children

end

/-- The experiment with a cut tree. -/
def Experiment.cut (x : Experiment) : Experiment := { x with root := x.root.map Node.cut }

mutual

/-- A cut tree has, expanded, the layout that the tree has unexpanded. -/
theorem Node.layout_cut : ∀ (n : Node) (inLoop : Bool) (start : Int) (owner : Option SectionUid),
    n.cut.layout true inLoop start owner = n.layout false inLoop start owner
  | ⟨kind, length, children⟩, inLoop, start, owner => by
      rw [Node.cut, Node.layout, Node.layout, childLayouts_kept children kind.isLoop]
termination_by structural n => n

theorem childLayouts_kept : ∀ (children : List (Int × Node)) (inLoop : Bool) (start : Int)
    (owner : Option SectionUid),
    childLayouts true (kept inLoop (cutAll children)) inLoop start owner =
      childLayouts false children inLoop start owner
  | [], inLoop, start, owner => by cases inLoop <;> rfl
  | (offset, child) :: children, true, start, owner => by
      -- Only the first child is left, and only the first child is walked.
      show childLayouts true [(offset, child.cut)] true start owner = _
      rw [childLayouts, childLayouts, Node.layout_cut child, childLayouts, ite_self]
      rfl
  | (offset, child) :: children, false, start, owner => by
      have hrest := childLayouts_kept children false start owner
      show childLayouts true ((offset, child.cut) :: kept false (cutAll children)) false start
        owner = _
      rw [childLayouts, childLayouts, Node.layout_cut child, hrest]
      rfl
termination_by structural children => children

end

/-- A cut experiment has, expanded, the outline that the experiment has unexpanded. -/
theorem Experiment.outline_cut (x : Experiment) : x.cut.outline true = x.outline false := by
  unfold outline cut
  cases x.root with
  | none => rfl
  | some root =>
      show root.cut.outline true 0 none = root.outline false 0 none
      rw [root.cut.outline_eq, root.outline_eq, root.layout_cut]

/-- To flatten an experiment without expanding loops is to cut its tree and to expand what is left
    of its loops.  This holds of failures as well as of events with their ids. -/
theorem flatten_unexpanded (x : Experiment) (tick : Float) (limit : Nat) :
    x.flatten tick ⟨false, limit⟩ = x.cut.flatten tick ⟨true, limit⟩ := by
  have hlower : x.lowerRoot ⟨false, limit⟩ = x.cut.lowerRoot ⟨true, limit⟩ := by
    rw [x.lowerRoot_eq, x.cut.lowerRoot_eq, x.outline_cut]
  unfold Experiment.flatten
  rw [hlower]
  rfl

/-! ## Traces -/

/-- The kind of an event without the id of its start. -/
def EventKind.unchained : EventKind → EventKind
  | .sectionEnd uid _ => .sectionEnd uid 0
  | .loopEnd owner _ => .loopEnd owner 0
  | .iterationEnd owner index _ => .iterationEnd owner index 0
  | .pulseEnd activity signal _ => .pulseEnd activity signal 0
  | .setFrequencyEnd oscillator signals _ => .setFrequencyEnd oscillator signals 0
  | kind => kind

/-- The event without its id and that of its start. -/
def Event.erased (e : Event) : Event := ⟨0, e.time, e.kind.unchained⟩

mutual

/-- The events of an item without ids. -/
def Item.trace (tick : Float) : Item → List Event
  | .point time what => [⟨0, .ofTicks tick time, what.kind⟩]
  | .span start stop what inside =>
      ⟨0, .ofTicks tick start, what.first⟩ ::
        (traceAll tick inside ++ [⟨0, .ofTicks tick stop, what.last 0⟩])
  | .fault _ => []
termination_by structural i => i

/-- The events of items without ids. -/
def traceAll (tick : Float) : List Item → List Event
  | [] => []
  | i :: is => i.trace tick ++ traceAll tick is
termination_by structural is => is

end

/-- What is momentary carries the id of no start. -/
theorem Momentary.unchained_kind (what : Momentary) : what.kind.unchained = what.kind := by
  cases what <;> rfl

/-- A start carries the id of no other. -/
theorem Lasting.unchained_first (what : Lasting) : what.first.unchained = what.first := by
  cases what <;> rfl

theorem Lasting.unchained_last (what : Lasting) (chain : Nat) :
    (what.last chain).unchained = what.last 0 := by
  cases what <;> rfl

mutual

/-- The events of an item are its trace, the ids aside. -/
theorem Item.erased_events (tick : Float) : ∀ (i : Item) (next other : Nat),
    (i.events tick next other).map Event.erased = i.trace tick
  | .point time what, next, other => by
      show [Event.mk 0 _ what.kind.unchained] = _
      rw [what.unchained_kind]
      rfl
  | .span start stop what inside, next, other => by
      rw [Item.events, List.map_cons, List.map_append, erased_eventsAll tick inside, Item.trace]
      show Event.mk 0 _ what.first.unchained :: (_ ++ [Event.mk 0 _ (what.last next).unchained]) = _
      rw [what.unchained_first, what.unchained_last]
  | .fault error, next, other => rfl
termination_by structural i => i

/-- Without ids, the events of items do not depend on the counters. -/
theorem erased_eventsAll (tick : Float) : ∀ (is : List Item) (next other : Nat),
    (eventsAll tick is next other).map Event.erased = traceAll tick is
  | [], next, other => rfl
  | i :: is, next, other => by
      rw [eventsAll, List.map_append, i.erased_events, erased_eventsAll tick is, traceAll]
termination_by structural is => is

end

theorem traceAll_append (tick : Float) (as bs : List Item) :
    traceAll tick (as ++ bs) = traceAll tick as ++ traceAll tick bs := by
  induction as with
  | nil => rfl
  | cons a as ih =>
      rw [List.cons_append, traceAll, ih, traceAll, List.append_assoc]

theorem traceAll_span (tick : Float) (start stop : Int) (what : Lasting) (inside : List Item) :
    traceAll tick [.span start stop what inside] = ⟨0, .ofTicks tick start, what.first⟩ ::
      (traceAll tick inside ++ [⟨0, .ofTicks tick stop, what.last 0⟩]) :=
  List.append_nil _

/-- Without ids, a flattened experiment is the trace of its score. -/
theorem erased_flatten {x : Experiment} {tick : Float} {o : LoweringOptions} {events : List Event}
    (h : x.flatten tick o = .ok events) :
    events.map Event.erased = traceAll tick (x.score o.expandLoops) := by
  rw [(Experiment.flatten_ok h).2, erased_eventsAll]

/-! ## Fewer events -/

/-- If what is inside of a span leaves a part of the events, so does the span. -/
theorem traceAll_span_sublist {tick : Float} {inside inside' : List Item}
    (h : (traceAll tick inside).Sublist (traceAll tick inside')) (start stop : Int)
    (what : Lasting) : (traceAll tick [.span start stop what inside]).Sublist
      (traceAll tick [.span start stop what inside']) := by
  rw [traceAll_span, traceAll_span]
  exact (h.append_right _).cons_cons _

/-- With less inside, the trace of a node is a sublist. -/
theorem NodeKind.trace_items_sublist {tick : Float} {inside inside' : List Item}
    (h : (traceAll tick inside).Sublist (traceAll tick inside')) (kind : NodeKind)
    (length : Option Int) (start : Int) (owner : Option SectionUid) :
    (traceAll tick (kind.items length start owner inside)).Sublist
      (traceAll tick (kind.items length start owner inside')) := by
  cases kind with
  | root => exact h
  | sect _ | loop _ _ | iteration _ _ _ =>
      cases length with
      | none => exact List.Sublist.refl _
      | some ticks => exact traceAll_span_sublist h _ _ _
  | _ => exact List.Sublist.refl _

mutual

/-- Unexpanded, a tree lowers to some of the events that it lowers to expanded. -/
theorem Node.trace_layout_sublist (tick : Float) : ∀ (n : Node) (inLoop : Bool) (start : Int)
    (owner : Option SectionUid), (traceAll tick (n.layout false inLoop start owner)).Sublist
      (traceAll tick (n.layout true inLoop start owner))
  | ⟨kind, length, children⟩, inLoop, start, owner => by
      have hinside := trace_childLayouts_sublist tick children kind.isLoop start
        (kind.ownerInside owner)
      rw [Node.layout, Node.layout]
      by_cases hnested : inLoop = kind.isIteration
      · rw [kind.placed_of_nested hnested, kind.placed_of_nested hnested]
        exact kind.trace_items_sublist hinside length start owner
      · obtain ⟨error, herror⟩ := kind.placed_of_stray hnested start
          (kind.items length start owner
            (childLayouts false children kind.isLoop start (kind.ownerInside owner)))
        rw [herror]
        exact List.nil_sublist _
termination_by structural n => n

theorem trace_childLayouts_sublist (tick : Float) : ∀ (children : List (Int × Node))
    (inLoop : Bool) (start : Int) (owner : Option SectionUid),
    (traceAll tick (childLayouts false children inLoop start owner)).Sublist
      (traceAll tick (childLayouts true children inLoop start owner))
  | [], inLoop, start, owner => List.Sublist.refl _
  | (offset, child) :: children, inLoop, start, owner => by
      have hchild := Node.trace_layout_sublist tick child inLoop (addTicks start offset) owner
      rw [childLayouts, childLayouts, traceAll_append, traceAll_append]
      refine hchild.append ?_
      cases inLoop with
      | true => exact List.nil_sublist _
      | false => exact trace_childLayouts_sublist tick children false start owner
termination_by structural children => children

end

mutual

/-- Unexpanded, the lowering comes by some of the sites that it comes by expanded. -/
theorem Node.sites_sublist : ∀ (n : Node) (inLoop : Bool),
    (n.sites false inLoop).Sublist (n.sites true inLoop)
  | ⟨kind, length, children⟩, inLoop => by
      rw [Node.sites, Node.sites]
      refine List.Sublist.cons_cons _ ?_
      split
      · exact childSites_sublist children kind.isLoop
      · exact List.Sublist.refl _
termination_by structural n => n

theorem childSites_sublist : ∀ (children : List (Int × Node)) (inLoop : Bool),
    (childSites false children inLoop).Sublist (childSites true children inLoop)
  | [], inLoop => List.Sublist.refl _
  | (offset, child) :: children, inLoop => by
      rw [childSites, childSites]
      refine (Node.sites_sublist child inLoop).append ?_
      cases inLoop with
      | true => exact List.nil_sublist _
      | false => exact childSites_sublist children false
termination_by structural children => children

end

/-- A part of the sites makes no more events. -/
theorem eventCountOf_le {as bs : List Site} (h : as.Sublist bs) :
    eventCountOf as ≤ eventCountOf bs := by
  induction h with
  | slnil => exact Nat.le_refl _
  | cons s _ ih => exact ih.trans (Nat.le_add_left _ _)
  | cons_cons s _ ih => exact Nat.add_le_add_left ih _

namespace Experiment

variable {x : Experiment}

/-- Without expansion some of the sites are left out. -/
theorem sites_sublist (x : Experiment) : (x.sites false).Sublist (x.sites true) := by
  unfold sites
  cases x.root with
  | none => exact List.Sublist.refl _
  | some root => exact root.sites_sublist false

/-- A tree that can be lowered with its loops expanded can be lowered without. -/
theorem Lowerable.unexpanded {limit : Nat} (h : x.Lowerable ⟨true, limit⟩) :
    x.Lowerable ⟨false, limit⟩ where
  lengths s hs := h.lengths s (x.sites_sublist.subset hs)
  iterations s hs := h.iterations s (x.sites_sublist.subset hs)
  limit := (eventCountOf_le x.sites_sublist).trans h.limit

/-- What can be resolved with loops expanded can be resolved without. -/
theorem Resolvable.unexpanded (h : x.Resolvable true) : x.Resolvable false where
  oscillators s hs := h.oscillators s (x.sites_sublist.subset hs)
  pulses s hs := h.pulses s (x.sites_sublist.subset hs)
  phases s hs := h.phases s (x.sites_sublist.subset hs)
  devices s hs := h.devices s (x.sites_sublist.subset hs)

theorem trace_score_sublist (x : Experiment) (tick : Float) :
    (traceAll tick (x.score false)).Sublist (traceAll tick (x.score true)) := by
  unfold score
  rw [traceAll_append, traceAll_append]
  refine List.Sublist.append_left ?_ _
  unfold outline
  cases x.root with
  | none => exact List.Sublist.refl _
  | some root =>
      show (traceAll tick (root.outline false 0 none)).Sublist
        (traceAll tick (root.outline true 0 none))
      rw [root.outline_eq, root.outline_eq]
      exact root.trace_layout_sublist tick false 0 none

end Experiment

/-- An experiment that can be flattened with its loops expanded can be flattened without, under the
    same limit, and ids aside this only leaves out events: those that remain happen at the same time
    and say the same, and no more are missing than the sites left out count for.  Where there is a
    timeline with loops expanded, there is one without. -/
theorem unexpanded_of_expanded (x : Experiment) (d : Diagnostics) (tick : Float) (limit : Nat) :
    (∀ events, x.flatten tick ⟨true, limit⟩ = .ok events →
      ∃ events', x.flatten tick ⟨false, limit⟩ = .ok events' ∧
        (events'.map Event.erased).Sublist (events.map Event.erased) ∧
        events'.length + x.eventCount true = events.length + x.eventCount false) ∧
    (∀ out, (x.timeline d tick ⟨true, limit⟩).outcome = .ok out →
      ∃ out', (x.timeline d tick ⟨false, limit⟩).outcome = .ok out') := by
  have hflatten : ∀ events, x.flatten tick ⟨true, limit⟩ = .ok events →
      ∃ events', x.flatten tick ⟨false, limit⟩ = .ok events' := fun events h =>
    Experiment.flatten_isOk.mpr (Experiment.flatten_isOk.mp ⟨events, h⟩).unexpanded
  constructor
  · intro events h
    obtain ⟨events', h'⟩ := hflatten events h
    have hlength : events.length = (initialResets x.devices).length + x.eventCount true :=
      Experiment.length_flatten h
    have hlength' : events'.length = (initialResets x.devices).length + x.eventCount false :=
      Experiment.length_flatten h'
    refine ⟨events', h', ?_, by omega⟩
    rw [erased_flatten h, erased_flatten h']
    exact x.trace_score_sublist tick
  · intro out h
    rw [Experiment.outcome_timeline] at h ⊢
    obtain ⟨events, hexpanded, hresolve⟩ := bind_ok h
    obtain ⟨events', h'⟩ := hflatten events hexpanded
    have hresolvable := (Experiment.resolve_isOk hexpanded).mp ⟨out, hresolve⟩
    rw [h']
    exact (Experiment.resolve_isOk h').mpr hresolvable.unexpanded

/-- A loop of two iterations, each with a loop of two more in which a signal is played. -/
def rounds : Experiment :=
  let play : Node := .leaf (.play ⟨⟨⟨0⟩⟩, none, none, 0.0, some 0.5, none⟩) (some 10)
  let inner (index : Nat) : Node := ⟨.iteration ⟨⟨8⟩⟩ index [], some 10, [(0, play)]⟩
  let outer (index : Nat) : Node :=
    ⟨.iteration ⟨⟨7⟩⟩ index [], some 20, [
      (0, ⟨.loop ⟨⟨8⟩⟩ 2, some 20, [(0, inner 0), (10, inner 1)]⟩)]⟩
  { duet with root := some ⟨.loop ⟨⟨7⟩⟩ 2, some 40, [(0, outer 0), (20, outer 1)]⟩ }

/-- The flattened example with its loops expanded, a tick lasting a nanosecond. -/
def roundsExpanded : List Event := (rounds.flatten 1e-9 ⟨true, 26⟩).toOption.getD []

/-- The timeline of the example with its loops expanded. -/
def roundsTimeline : List Event :=
  (rounds.timeline ⟨false⟩ 1e-9 ⟨true, 26⟩).outcome.toOption.getD []

/-- Without expansion, sixteen of twenty-six events are left out. -/
theorem rounds_unexpanded :
    rounds.flatten 1e-9 ⟨true, 26⟩ = .ok roundsExpanded ∧
    (∃ events, rounds.flatten 1e-9 ⟨false, 26⟩ = .ok events ∧
      (events.map Event.erased).Sublist (roundsExpanded.map Event.erased) ∧
      events.length + 16 = roundsExpanded.length) ∧
    ∃ out, (rounds.timeline ⟨false⟩ 1e-9 ⟨false, 26⟩).outcome = .ok out := by
  have hflatten : rounds.flatten 1e-9 ⟨true, 26⟩ = .ok roundsExpanded := by decide +kernel
  have htimeline : (rounds.timeline ⟨false⟩ 1e-9 ⟨true, 26⟩).outcome = .ok roundsTimeline := by
    decide +kernel
  have hall : rounds.eventCount true = 26 := by decide
  have hfirst : rounds.eventCount false = 10 := by decide
  obtain ⟨hfewer, hresolved⟩ := unexpanded_of_expanded rounds ⟨false⟩ 1e-9 26
  obtain ⟨events, hevents, hsublist, hlength⟩ := hfewer roundsExpanded hflatten
  exact ⟨hflatten, ⟨events, hevents, hsublist, by omega⟩, hresolved roundsTimeline htimeline⟩

end PulseTimeline
