/-
  Onsets: what a tree lowers to, its ends and its ids left aside.

  1. **Onsets** — the onsets of an item are its points and the starts of its spans, each with its
     tick.  They are the events of the item that name no start, in the same order
     (`onsets_eventsAll`).

  2. **Without ids** — the events that concern a signal never name a start, so the part of a
     flattened experiment that concerns a signal is, ids aside, a matter of the onsets of its score
     (`part_flatten`).

  3. **Ids** — in a flattened experiment ids follow the list within each rank of either pass
     (`idsFollowList_frequency`, `idsFollowList_phase`), so that they settle no tie by themselves.
-/
import PulseTimeline.Proofs.Chains
import PulseTimeline.Proofs.PhasePass

namespace PulseTimeline

/-! ## Onsets -/

mutual

/-- The points of an item and the starts of its spans, with their ticks. -/
def Item.onsets : Item → List (Int × EventKind)
  | .point time what => [(time, what.kind)]
  | .span start _ what inside => (start, what.first) :: onsetsAll inside
  | .fault _ => []
termination_by structural i => i

/-- The points of items and the starts of their spans, with their ticks. -/
def onsetsAll : List Item → List (Int × EventKind)
  | [] => []
  | i :: is => i.onsets ++ onsetsAll is
termination_by structural is => is

end

theorem onsetsAll_append (as bs : List Item) :
    onsetsAll (as ++ bs) = onsetsAll as ++ onsetsAll bs := by
  induction as with
  | nil => rfl
  | cons a as ih =>
      show a.onsets ++ onsetsAll (as ++ bs) = (a.onsets ++ onsetsAll as) ++ onsetsAll bs
      rw [ih, List.append_assoc]

/-- The events of a list that name no start. -/
def onsetsOf (events : List Event) : List Event := events.filter fun e => e.kind.chain?.isNone

/-- When an event happens, and what. -/
def Event.content (e : Event) : Seconds × EventKind := (e.time, e.kind)

/-- An onset in seconds. -/
def stampOnset (tick : Float) (p : Int × EventKind) : Seconds × EventKind :=
  (.ofTicks tick p.1, p.2)

mutual

/-- Stamping an item does not touch its onsets, whatever the counters. -/
theorem Item.onsets_events (tick : Float) : ∀ (i : Item) (next other : Nat),
    (onsetsOf (i.events tick next other)).map Event.content = i.onsets.map (stampOnset tick)
  | .point time what, next, other => by
      simp [Item.events, onsetsOf, Item.onsets, Event.content, stampOnset]
  | .span start stop what inside, next, other => by
      have hinside := onsets_eventsAll tick inside (next + 1) other
      unfold onsetsOf at hinside
      simp only [Item.events, onsetsOf, List.filter_cons, List.filter_append, List.filter_nil,
        Lasting.chain?_first, Lasting.chain?_last, Option.isNone_none, Option.isNone_some, if_true,
        Bool.false_eq_true, if_false, List.append_nil, List.map_cons, hinside, Item.onsets]
      rfl
  | .fault error, next, other => rfl
termination_by structural i => i

/-- The events of items that name no start are their onsets. -/
theorem onsets_eventsAll (tick : Float) : ∀ (is : List Item) (next other : Nat),
    (onsetsOf (eventsAll tick is next other)).map Event.content =
      (onsetsAll is).map (stampOnset tick)
  | [], next, other => rfl
  | i :: is, next, other => by
      have hi := i.onsets_events tick next other
      have his := onsets_eventsAll tick is (next + i.starts) (other + i.others)
      unfold onsetsOf at hi his ⊢
      rw [eventsAll, List.filter_append, List.map_append, hi, his, onsetsAll, List.map_append]
termination_by structural is => is

end

/-! ## The part that concerns a signal -/

/-- What concerns a signal is no end. -/
theorem chain?_of_concerns {uid : SignalUid} {k : EventKind} (h : k.concerns uid = true) :
    k.chain? = none := by
  cases k <;> first | rfl | cases h

/-- A selection among the events that name no start, as a selection among the onsets. -/
theorem content_filter {p : EventKind → Bool} (hp : ∀ k, p k = true → k.chain? = none)
    {x : Experiment} {tick : Float} {o : LoweringOptions} {events : List Event}
    (h : x.flatten tick o = .ok events) :
    (events.filter fun e => p e.kind).map Event.content =
      ((onsetsAll (x.score o.expandLoops)).filter fun q => p q.2).map (stampOnset tick) := by
  obtain ⟨_, hevents⟩ := Experiment.flatten_ok h
  have honsets := onsets_eventsAll tick (x.score o.expandLoops) 0
    (startsAll (x.score o.expandLoops))
  rw [← hevents] at honsets
  have hfilter : (onsetsOf events).filter (fun e => p e.kind) =
      events.filter fun e => p e.kind := by
    unfold onsetsOf
    rw [List.filter_filter]
    refine List.filter_congr fun e _ => ?_
    cases hk : p e.kind with
    | false => rfl
    | true => rw [hp e.kind hk]; rfl
  have hcontent : ∀ es : List Event, (es.filter fun e => p e.kind).map Event.content =
      (es.map Event.content).filter fun c => p c.2 := by
    intro es
    rw [List.filter_map]
    rfl
  rw [← hfilter, hcontent, honsets, List.filter_map]
  rfl

/-- Events of the same content are the same but for their ids. -/
theorem map_anonymous_eq {as bs : List Event}
    (h : as.map Event.content = bs.map Event.content) :
    as.map Event.anonymous = bs.map Event.anonymous := by
  have h' := congrArg (List.map fun c : Seconds × EventKind => Event.mk 0 c.1 c.2) h
  rwa [List.map_map, List.map_map] at h'

/-- Two flattened experiments whose onsets agree on what concerns a signal agree on the events that
    concern it, ids aside. -/
theorem part_flatten {x x' : Experiment} {tick : Float} {o : LoweringOptions}
    {events events' : List Event} (h : x.flatten tick o = .ok events)
    (h' : x'.flatten tick o = .ok events') {uid : SignalUid}
    (honsets : (onsetsAll (x.score o.expandLoops)).filter (fun q => q.2.concerns uid) =
      (onsetsAll (x'.score o.expandLoops)).filter fun q => q.2.concerns uid) :
    (events.filter fun e => e.kind.concerns uid).map Event.anonymous =
      (events'.filter fun e => e.kind.concerns uid).map Event.anonymous := by
  refine map_anonymous_eq ?_
  rw [content_filter (fun _ => chain?_of_concerns) h,
    content_filter (fun _ => chain?_of_concerns) h', honsets]

/-! ## Ids within a rank -/

/-- Of the events that the frequency pass visits, those of one rank are all starts or all not. -/
theorem isStart_of_frequencyRank {a b : EventKind}
    (ha : (Frequency.rank a.type).isSome = true)
    (hab : Frequency.rank a.type = Frequency.rank b.type) : a.isStart = b.isStart := by
  have hstart : ∀ k : EventKind, (Frequency.rank k.type).isSome = true →
      k.isStart = decide (Frequency.rank k.type ≠ some (-30)) := by
    intro k hk
    cases k with
    | pulseStart activity pulse => cases activity <;> rfl
    | _ => first | rfl | cases hk
  rw [hstart a ha, hstart b (hab ▸ ha), hab]

/-- So it is with the phase pass. -/
theorem isStart_of_phaseRank {a b : EventKind} (ha : (Phase.rank a.type).isSome = true)
    (hab : Phase.rank a.type = Phase.rank b.type) : a.isStart = b.isStart := by
  have hstart : ∀ k : EventKind, (Phase.rank k.type).isSome = true →
      k.isStart = decide (Phase.rank k.type ≠ some (-15)) := by
    intro k hk
    cases k <;> first | rfl | cases hk
  rw [hstart a ha, hstart b (hab ▸ ha), hab]

/-- In a numbered list the events of one rank have their ids in the order of the list: they are
    all starts or none of them is. -/
theorem idsFollowList_frequency {events : List Event} (h : IdsIncrease events) :
    IdsFollowList Frequency.rank events := by
  refine h.imp ?_
  intro a b hab hranked hrank
  exact le_of_lt (hab (isStart_of_frequencyRank hranked hrank))

theorem idsFollowList_phase {events : List Event} (h : IdsIncrease events) :
    IdsFollowList Phase.rank events := by
  refine h.imp ?_
  intro a b hab hranked hrank
  exact le_of_lt (hab (isStart_of_phaseRank hranked hrank))

end PulseTimeline
