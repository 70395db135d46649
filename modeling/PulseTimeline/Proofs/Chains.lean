/-
  Ids and chains of a lowered experiment.

  1. **Numbering** — the starts of a lowered experiment are numbered along the list, and so are the
     other events, behind all starts (`map_id_starts`, `map_id_others`).  Hence no id occurs twice
     (`nodup_ids`), and within starts and within the others ids increase (`ids_increase`).

  2. **Chains** — `ChainsIntact` says that every end finds its start, exactly one, further to the
     front, and every start its end.  Lowered experiments are like that (`chainsIntact_flatten`).
     The invariant behind it is about one item at a time: the ends of an item name the ids that its
     starts took, each once (`chains_perm_eventsAll`), and stand behind them
     (`startsBefore_eventsAll`).
-/
import Mathlib.Data.List.Nodup
import Mathlib.Data.List.Perm.Basic
import Mathlib.Data.List.Range
import PulseTimeline.Proofs.Outline

namespace PulseTimeline

/-! ## Starts and ends -/

namespace EventKind

/-- Whether the event is the start of what lasts. -/
def isStart : EventKind → Bool
  | .sectionStart .. | .loopStart .. | .iterationStart .. | .pulseStart ..
  | .setFrequencyStart .. => true
  | .sectionEnd .. | .loopEnd .. | .iterationEnd .. | .pulseEnd .. | .setFrequencyEnd ..
  | .initialFrequency .. | .resetSoftwarePhase .. | .resetHardwarePhase .. | .initialReset .. =>
      false

/-- Whether an end fits a start: they are of the same kind and about the same thing. -/
def Opens : EventKind → EventKind → Prop
  | .sectionStart uid, .sectionEnd uid' _ => uid = uid'
  | .loopStart owner _, .loopEnd owner' _ => owner = owner'
  | .iterationStart owner index _, .iterationEnd owner' index' _ => owner = owner' ∧ index = index'
  | .pulseStart activity pulse, .pulseEnd activity' signal _ =>
      activity = activity' ∧ pulse.signal = signal
  | .setFrequencyStart update, .setFrequencyEnd oscillator signals _ =>
      update.oscillator = oscillator ∧ update.signals = signals
  | _, _ => False

/-- Only a start opens anything. -/
theorem Opens.isStart {first last : EventKind} (h : first.Opens last) : first.isStart = true := by
  cases first <;> first | rfl | cases h

end EventKind

@[simp] theorem Lasting.isStart_first (w : Lasting) : w.first.isStart = true := by cases w <;> rfl

@[simp] theorem Lasting.chain?_first (w : Lasting) : w.first.chain? = none := by cases w <;> rfl

@[simp] theorem Lasting.isStart_last (w : Lasting) (chain : Nat) :
    (w.last chain).isStart = false := by
  cases w <;> rfl

@[simp] theorem Lasting.chain?_last (w : Lasting) (chain : Nat) :
    (w.last chain).chain? = some chain := by
  cases w <;> rfl

@[simp] theorem Momentary.isStart_kind (w : Momentary) : w.kind.isStart = false := by
  cases w <;> rfl

@[simp] theorem Momentary.chain?_kind (w : Momentary) : w.kind.chain? = none := by cases w <;> rfl

/-- The start and the end of what lasts belong together, whatever id the end carries. -/
theorem Lasting.first_opens_last (w : Lasting) (chain : Nat) : w.first.Opens (w.last chain) := by
  cases w <;> simp [Lasting.first, Lasting.last, EventKind.Opens]

/-! ## Numbering -/

/-- The starts of a list. -/
def startsOf (events : List Event) : List Event := events.filter fun e => e.kind.isStart

/-- The events of a list that are not starts. -/
def othersOf (events : List Event) : List Event := events.filter fun e => !e.kind.isStart

theorem startsOf_append (as bs : List Event) : startsOf (as ++ bs) = startsOf as ++ startsOf bs :=
  List.filter_append ..

theorem othersOf_append (as bs : List Event) : othersOf (as ++ bs) = othersOf as ++ othersOf bs :=
  List.filter_append ..

mutual

/-- The starts of an item take the ids from `next` on, in order. -/
theorem Item.map_id_starts (tick : Float) : ∀ (i : Item) (next other : Nat),
    (startsOf (i.events tick next other)).map Event.id = List.range' next i.starts
  | .point time what, next, other => by
      simp [Item.events, startsOf, Item.starts]
  | .span start stop what inside, next, other => by
      have hinside := map_id_starts tick inside (next + 1) other
      simp only [Item.events, startsOf, List.filter_cons, List.filter_append, List.filter_nil,
        Lasting.isStart_first, Lasting.isStart_last, if_true, List.map_cons]
      rw [startsOf] at hinside
      simp only [hinside, Bool.false_eq_true, if_false, List.append_nil, Item.starts]
      rw [Nat.add_comm 1, List.range'_succ]
  | .fault error, next, other => rfl
termination_by structural i => i

/-- Starts are numbered along the list. -/
theorem map_id_starts (tick : Float) : ∀ (is : List Item) (next other : Nat),
    (startsOf (eventsAll tick is next other)).map Event.id = List.range' next (startsAll is)
  | [], next, other => rfl
  | i :: is, next, other => by
      rw [eventsAll, startsOf_append, List.map_append, i.map_id_starts tick,
        map_id_starts tick is, startsAll, List.range'_append_1]
termination_by structural is => is

end

mutual

/-- All other events of an item take the ids from `other` on, in order. -/
theorem Item.map_id_others (tick : Float) : ∀ (i : Item) (next other : Nat),
    (othersOf (i.events tick next other)).map Event.id = List.range' other i.others
  | .point time what, next, other => by
      simp [Item.events, othersOf, Item.others]
  | .span start stop what inside, next, other => by
      have hinside := map_id_others tick inside (next + 1) other
      simp only [Item.events, othersOf, List.filter_cons, List.filter_append, List.filter_nil,
        Lasting.isStart_first, Lasting.isStart_last, Bool.not_true, Bool.not_false, if_true,
        Bool.false_eq_true, if_false, List.map_append]
      rw [othersOf] at hinside
      rw [hinside, Item.others, List.range'_1_concat]
      rfl
  | .fault error, next, other => rfl
termination_by structural i => i

/-- The events that are not starts are numbered along the list. -/
theorem map_id_others (tick : Float) : ∀ (is : List Item) (next other : Nat),
    (othersOf (eventsAll tick is next other)).map Event.id = List.range' other (othersAll is)
  | [], next, other => rfl
  | i :: is, next, other => by
      rw [eventsAll, othersOf_append, List.map_append, i.map_id_others tick,
        map_id_others tick is, othersAll, List.range'_append_1]
termination_by structural is => is

end

/-! ## Chains of items -/

mutual

/-- The chains in an item are the ids of its starts, each once: every start has one end. -/
theorem Item.chains_perm (tick : Float) : ∀ (i : Item) (next other : Nat),
    ((i.events tick next other).filterMap fun e => e.kind.chain?).Perm
      (List.range' next i.starts)
  | .point time what, next, other => by simp [Item.events, Item.starts]
  | .span start stop what inside, next, other => by
      have hinside := chains_perm_eventsAll tick inside (next + 1) other
      simp only [Item.events, List.filterMap_cons, List.filterMap_append, Lasting.chain?_first,
        Lasting.chain?_last, List.filterMap_nil, Item.starts]
      rw [Nat.add_comm 1, List.range'_succ]
      exact (hinside.append_right [next]).trans (List.perm_append_singleton next _)
  | .fault error, next, other => List.Perm.refl _
termination_by structural i => i

/-- The ends of items name the ids of their starts, each once. -/
theorem chains_perm_eventsAll (tick : Float) : ∀ (is : List Item) (next other : Nat),
    ((eventsAll tick is next other).filterMap fun e => e.kind.chain?).Perm
      (List.range' next (startsAll is))
  | [], next, other => List.Perm.refl _
  | i :: is, next, other => by
      rw [eventsAll, List.filterMap_append, startsAll, ← List.range'_append_1]
      exact (i.chains_perm tick next other).append (chains_perm_eventsAll tick is _ _)
termination_by structural is => is

end

/-- The start that an end of a list names stands further to the front. -/
def StartsBefore (events : List Event) : Prop :=
  ∀ e ∈ events, ∀ chain, e.kind.chain? = some chain →
    ∃ f, f.id = chain ∧ f.kind.Opens e.kind ∧ [f, e].Sublist events

/-- Two pieces in which ends come after their starts, one after the other. -/
theorem StartsBefore.append {as bs : List Event} (ha : StartsBefore as) (hb : StartsBefore bs) :
    StartsBefore (as ++ bs) := by
  intro e he chain hchain
  rcases List.mem_append.mp he with he | he
  · obtain ⟨f, hid, hopens, hsub⟩ := ha e he chain hchain
    exact ⟨f, hid, hopens, hsub.trans (List.sublist_append_left as bs)⟩
  · obtain ⟨f, hid, hopens, hsub⟩ := hb e he chain hchain
    exact ⟨f, hid, hopens, hsub.trans (List.sublist_append_right as bs)⟩

mutual

/-- In an item, an end comes after the start whose id it carries. -/
theorem Item.startsBefore (tick : Float) : ∀ (i : Item) (next other : Nat),
    StartsBefore (i.events tick next other)
  | .point time what, next, other => by
      intro e he chain hchain
      rw [Item.events, List.mem_singleton] at he
      subst he
      simp at hchain
  | .span start stop what inside, next, other => by
      intro e he chain hchain
      rw [Item.events, List.mem_cons, List.mem_append, List.mem_singleton] at he
      rcases he with rfl | he | rfl
      · simp at hchain
      · -- An end inside of the span.
        obtain ⟨f, hid, hopens, hsub⟩ := startsBefore_eventsAll tick inside _ _ e he chain hchain
        refine ⟨f, hid, hopens, ?_⟩
        rw [Item.events]
        exact (hsub.trans (List.sublist_append_left _ _)).trans (List.sublist_cons_self _ _)
      · -- The end of the span itself.
        rw [Lasting.chain?_last, Option.some.injEq] at hchain
        refine ⟨⟨next, .ofTicks tick start, what.first⟩, hchain, what.first_opens_last next, ?_⟩
        rw [Item.events]
        exact (List.sublist_append_right _ _).cons_cons _
  | .fault error, next, other => by
      intro e he
      cases he
termination_by structural i => i

/-- So it is in a list of items: no end looks for its start in another item. -/
theorem startsBefore_eventsAll (tick : Float) : ∀ (is : List Item) (next other : Nat),
    StartsBefore (eventsAll tick is next other)
  | [], next, other => by
      intro e he
      cases he
  | i :: is, next, other => by
      rw [eventsAll]
      exact (i.startsBefore tick next other).append (startsBefore_eventsAll tick is _ _)
termination_by structural is => is

end

/-! ## Lists with all chains intact -/

/-- Every end has exactly one start, further to the front, and every start exactly one end. -/
structure ChainsIntact (events : List Event) : Prop where
  start_of_end : ∀ e ∈ events, ∀ chain, e.kind.chain? = some chain →
    ∃ f, (events.filter fun g => g.id = chain) = [f] ∧ f.kind.Opens e.kind ∧
      [f, e].Sublist events
  end_of_start : ∀ f ∈ events, f.kind.isStart = true →
    ∃ e, (events.filter fun g => g.kind.chain? = some f.id) = [e] ∧ f.kind.Opens e.kind

/-- Where a projection has no value twice, one element has the value that it has. -/
theorem filter_eq_singleton {α β : Type} [DecidableEq β] {g : α → Option β} {l : List α}
    (hnodup : (l.filterMap g).Nodup) {a : α} {b : β} (ha : a ∈ l) (hg : g a = some b) :
    (l.filter fun x => g x = some b) = [a] := by
  induction l with
  | nil => cases ha
  | cons x xs ih =>
      -- Nothing else in the list goes to `b`.
      have hrest : ∀ ys : List α, b ∉ ys.filterMap g → (ys.filter fun y => g y = some b) = [] := by
        intro ys hb
        refine List.filter_eq_nil_iff.mpr fun y hy hgy => hb ?_
        exact List.mem_filterMap.mpr ⟨y, hy, by simpa using hgy⟩
      cases hx : g x with
      | none =>
          rw [List.filterMap_cons_none hx] at hnodup
          rw [List.filter_cons_of_neg (by simp [hx])]
          rcases List.mem_cons.mp ha with rfl | ha
          · rw [hx] at hg; cases hg
          · exact ih hnodup ha
      | some c =>
          rw [List.filterMap_cons_some hx, List.nodup_cons] at hnodup
          rcases List.mem_cons.mp ha with rfl | ha
          · rw [hx, Option.some.injEq] at hg
            subst hg
            rw [List.filter_cons_of_pos (by simp [hx]), hrest xs hnodup.1]
          · have hcb : c ≠ b := by
              rintro rfl
              exact hnodup.1 (List.mem_filterMap.mpr ⟨a, ha, hg⟩)
            rw [List.filter_cons_of_neg (by simp [hx, hcb])]
            exact ih hnodup.2 ha

/-- Where ids are distinct, an event is the only one with its id. -/
theorem filter_id_eq_singleton {events : List Event} (hids : (events.map Event.id).Nodup)
    {e : Event} (he : e ∈ events) : (events.filter fun g => g.id = e.id) = [e] := by
  have h := filter_eq_singleton (g := fun g : Event => some g.id) (l := events) (a := e) (b := e.id)
    (by simpa [List.filterMap_eq_map'] using hids) he rfl
  simpa using h

/-- With distinct ids, an end for each start and a start before each end keep the chains intact. -/
theorem chainsIntact_of_startsBefore {events : List Event} (hids : (events.map Event.id).Nodup)
    (hbefore : StartsBefore events)
    (hends : (events.filterMap fun e => e.kind.chain?).Nodup)
    (hcomplete : ∀ f ∈ events, f.kind.isStart = true → ∃ e ∈ events, e.kind.chain? = some f.id) :
    ChainsIntact events := by
  constructor
  · intro e he chain hchain
    obtain ⟨f, rfl, hopens, hsub⟩ := hbefore e he chain hchain
    exact ⟨f, filter_id_eq_singleton hids (hsub.subset List.mem_cons_self), hopens, hsub⟩
  · intro f hf hstart
    obtain ⟨e, he, hchain⟩ := hcomplete f hf hstart
    refine ⟨e, filter_eq_singleton hends he hchain, ?_⟩
    obtain ⟨f', hid, hopens, hsub⟩ := hbefore e he f.id hchain
    have hff : f' = f := List.inj_on_of_nodup_map hids (hsub.subset List.mem_cons_self) hf hid
    rwa [hff] at hopens

/-! ## Lowered experiments -/

/-- Ids increase along the list, within the starts and within the other events. -/
def IdsIncrease (events : List Event) : Prop :=
  events.Pairwise fun a b => a.kind.isStart = b.kind.isStart → a.id < b.id

/-- Part of a list has its ids in the same order. -/
theorem IdsIncrease.filter {events : List Event} (h : IdsIncrease events) (p : Event → Bool) :
    IdsIncrease (events.filter p) :=
  List.Pairwise.filter p h

section Lowered

variable {x : Experiment} {tick : Float} {o : LoweringOptions} {events : List Event}

/-- The ids of a list are those of its starts and those of the rest. -/
theorem ids_perm (events : List Event) :
    (events.map Event.id).Perm
      ((startsOf events).map Event.id ++ (othersOf events).map Event.id) := by
  rw [← List.map_append]
  exact (List.filter_append_perm _ _).symm.map _

/-- The starts of a lowered experiment have the first ids, in the order of the list. -/
theorem map_id_startsOf_flatten (h : x.flatten tick o = .ok events) :
    (startsOf events).map Event.id = List.range' 0 (startsAll (x.score o.expandLoops)) := by
  obtain ⟨_, rfl⟩ := Experiment.flatten_ok h
  exact map_id_starts tick _ _ _

/-- The other events of a lowered experiment have the ids behind those of the starts. -/
theorem map_id_othersOf_flatten (h : x.flatten tick o = .ok events) :
    (othersOf events).map Event.id =
      List.range' (startsAll (x.score o.expandLoops)) (othersAll (x.score o.expandLoops)) := by
  obtain ⟨_, rfl⟩ := Experiment.flatten_ok h
  exact map_id_others tick _ _ _

/-- No id occurs twice in a lowered experiment. -/
theorem nodup_ids (h : x.flatten tick o = .ok events) : (events.map Event.id).Nodup := by
  have hrange : List.range' 0 (startsAll (x.score o.expandLoops)) ++
      List.range' (startsAll (x.score o.expandLoops)) (othersAll (x.score o.expandLoops)) =
        List.range' 0 (startsAll (x.score o.expandLoops) + othersAll (x.score o.expandLoops)) := by
    rw [← List.range'_append_1, Nat.zero_add]
  rw [(ids_perm events).nodup_iff, map_id_startsOf_flatten h, map_id_othersOf_flatten h, hrange]
  exact List.nodup_range'

/-- Within the starts of a lowered experiment, and within its other events, ids increase along the
    list. -/
theorem ids_increase (h : x.flatten tick o = .ok events) : IdsIncrease events := by
  have hstarts : (startsOf events).Pairwise fun a b => a.id < b.id := by
    rw [← List.pairwise_map, map_id_startsOf_flatten h]
    exact List.pairwise_lt_range'
  have hothers : (othersOf events).Pairwise fun a b => a.id < b.id := by
    rw [← List.pairwise_map, map_id_othersOf_flatten h]
    exact List.pairwise_lt_range'
  rw [startsOf, List.pairwise_filter] at hstarts
  rw [othersOf, List.pairwise_filter] at hothers
  refine (hstarts.and hothers).imp fun {a b} ⟨hs, ho⟩ hab => ?_
  cases ha : a.kind.isStart with
  | true => exact hs ha (hab ▸ ha)
  | false => exact ho (by simp [ha]) (by simp [← hab, ha])

/-- All chains of a lowered experiment are intact. -/
theorem chainsIntact_flatten (h : x.flatten tick o = .ok events) : ChainsIntact events := by
  have hstarts := map_id_startsOf_flatten h
  have hids := nodup_ids h
  obtain ⟨_, rfl⟩ := Experiment.flatten_ok h
  have hchains := chains_perm_eventsAll tick (x.score o.expandLoops) 0
    (startsAll (x.score o.expandLoops))
  refine chainsIntact_of_startsBefore hids (startsBefore_eventsAll tick _ _ _)
    (hchains.nodup_iff.mpr List.nodup_range') ?_
  intro f hf hstart
  have hmem : f.id ∈ (startsOf (eventsAll tick (x.score o.expandLoops) 0
      (startsAll (x.score o.expandLoops)))).map Event.id :=
    List.mem_map_of_mem (List.mem_filter.mpr ⟨hf, hstart⟩)
  rw [hstarts, ← hchains.mem_iff] at hmem
  exact List.mem_filterMap.mp hmem

end Lowered

end PulseTimeline
