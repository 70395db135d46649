/-
  What the limit on the number of events does, and what it does not do.

  1. **Walk** — `Item.walk` emits items without any limit.  A fault ends it, and what was emitted
     until then is kept, so that a failure can be asked how far it came.

  2. **Law** — `Follows limit p r w`: the limited outcome `r` is that of the walk `w`, as long as the
     walk stays within the limit, and the failure of the limit otherwise.  A single push obeys this
     law, and two steps in a row obey it if each of them does (`Follows.andThen`).  Hence emitting
     items does (`emitAll_follows`).

  3. **Size** — a walk emits at most the events of its items, and exactly these if there is no fault
     (`size_walkAll`).

  4. **Experiment** — how many events an experiment emits decides alone what a limit does
     (`limit_law`).
-/
import PulseTimeline.Proofs.Pipeline
import PulseTimeline.Proofs.Sites

namespace PulseTimeline

/-! ## Walking without a limit -/

/-- How far a walk came: what was emitted, and the fault that ended it, if there was one. -/
structure Walk where
  reached : Progress
  fault : Option TimelineError

namespace Walk

/-- The number of events emitted. -/
def emitted (w : Walk) : Nat := w.reached.emitted.size

/-- The outcome of a walk that meets no limit. -/
def outcome (w : Walk) : Except TimelineError Progress :=
  match w.fault with
  | some error => .error error
  | none => .ok w.reached

/-- Go on from where a walk came to, unless a fault ended it. -/
def andThen (w : Walk) (next : Progress → Walk) : Walk :=
  match w.fault with
  | some _ => w
  | none => next w.reached

end Walk

namespace Progress

/-- One more event, whatever the limit. -/
def add (p : Progress) (e : Pending) : Progress := { p with emitted := p.emitted.push e }

/-- One more start, whatever the limit. -/
def addStart (p : Progress) (time : Int) (kind : EventKind) : Progress :=
  add { p with nextId := p.nextId + 1 } ⟨some p.nextId, time, kind⟩

end Progress

mutual

/-- Emit the events of an item, whatever the limit, up to its first fault. -/
def Item.walk : Item → Progress → Walk
  | .point time what, p => ⟨p.add ⟨none, time, what.kind⟩, none⟩
  | .span start stop what inside, p =>
      (walkAll inside (p.addStart start what.first)).andThen fun q =>
        ⟨q.add ⟨none, stop, what.last p.nextId⟩, none⟩
  | .fault error, p => ⟨p, some error⟩
termination_by structural i => i

/-- Emit the events of items in order, whatever the limit, up to the first fault. -/
def walkAll : List Item → Progress → Walk
  | [], p => ⟨p, none⟩
  | i :: is, p => (i.walk p).andThen fun q => walkAll is q
termination_by structural is => is

end

/-! ## The law of the limit -/

/-- The outcome `r` of a step from `p` under a limit is what the walk `w` says: the outcome of the
    walk if that stays within the limit, and the failure of the limit if it goes beyond. -/
structure Follows (limit : Nat) (p : Progress) (r : Except TimelineError Progress) (w : Walk) :
    Prop where
  grows : p.emitted.size ≤ w.emitted
  within : w.emitted ≤ limit → r = w.outcome
  beyond : p.emitted.size ≤ limit → limit < w.emitted → r = .error (.tooManyEvents limit)

section Law

variable {limit : Nat} {p : Progress}

/-- Two steps in a row follow the walk if each of them does. -/
theorem Follows.andThen {r : Except TimelineError Progress} {w : Walk}
    {f : Progress → Except TimelineError Progress} {g : Progress → Walk}
    (h : Follows limit p r w) (hnext : ∀ q, Follows limit q (f q) (g q)) :
    Follows limit p (r >>= f) (w.andThen g) := by
  obtain ⟨q, fault⟩ := w
  cases fault with
  | some error =>
      refine ⟨h.grows, fun hroom => ?_, fun hp hfull => ?_⟩
      · rw [h.within hroom]
        rfl
      · rw [h.beyond hp hfull]
        rfl
  | none =>
      have hq : Follows limit q (f q) (g q) := hnext q
      refine ⟨h.grows.trans hq.grows, fun hroom => ?_, fun hp hfull => ?_⟩
      · rw [h.within (hq.grows.trans hroom)]
        exact hq.within hroom
      · -- The limit is passed by the first step or by the second one.
        by_cases hfirst : q.emitted.size ≤ limit
        · rw [h.within hfirst]
          exact hq.beyond hfirst hfull
        · rw [h.beyond hp (Nat.lt_of_not_le hfirst)]
          rfl

theorem follows_push (e : Pending) : Follows limit p (p.push limit e) ⟨p.add e, none⟩ := by
  have hsize : (p.add e).emitted.size = p.emitted.size + 1 := Array.size_push _
  refine ⟨?_, fun hroom => ?_, fun hp hfull => ?_⟩
  · show p.emitted.size ≤ (p.add e).emitted.size
    omega
  · have hlt : ¬ limit ≤ p.emitted.size := by
      have hroom' : (p.add e).emitted.size ≤ limit := hroom
      omega
    rw [Progress.push, if_neg hlt]
    rfl
  · have hle : limit ≤ p.emitted.size := by
      have hfull' : limit < (p.add e).emitted.size := hfull
      omega
    rw [Progress.push, if_pos hle]

theorem follows_pushStart (time : Int) (kind : EventKind) :
    Follows limit p (p.pushStart limit time kind) ⟨p.addStart time kind, none⟩ := by
  have h : Follows limit { p with nextId := p.nextId + 1 } _ _ :=
    follows_push ⟨some p.nextId, time, kind⟩
  exact ⟨h.grows, h.within, h.beyond⟩

theorem follows_stay : Follows limit p (.ok p) ⟨p, none⟩ :=
  ⟨Nat.le_refl _, fun _ => rfl, fun hp hfull => absurd hp (Nat.not_le_of_lt hfull)⟩

theorem follows_fault (error : TimelineError) :
    Follows limit p (.error error) ⟨p, some error⟩ :=
  ⟨Nat.le_refl _, fun _ => rfl, fun hp hfull => absurd hp (Nat.not_le_of_lt hfull)⟩

end Law

mutual

theorem Item.emit_follows (limit : Nat) : ∀ (i : Item) (p : Progress),
    Follows limit p (i.emit limit p) (i.walk p)
  | .point time what, _ => follows_push _
  | .span start stop what inside, p => by
      have hfirst : Follows limit p _ _ := follows_pushStart start what.first
      exact hfirst.andThen fun inner =>
        (emitAll_follows limit inside inner).andThen fun outer => follows_push _
  | .fault error, p => follows_fault error
termination_by structural i => i

/-- Emitting items under a limit follows their walk. -/
theorem emitAll_follows (limit : Nat) : ∀ (is : List Item) (p : Progress),
    Follows limit p (emitAll limit is p) (walkAll is p)
  | [], _ => follows_stay
  | i :: is, p => (i.emit_follows limit p).andThen fun q => emitAll_follows limit is q
termination_by structural is => is

end

/-! ## The size of a walk -/

namespace Walk

theorem andThen_of_sound {w : Walk} (h : w.fault = none) (next : Progress → Walk) :
    w.andThen next = next w.reached := by
  unfold andThen
  rw [h]

theorem fault_andThen {w : Walk} {next : Progress → Walk} :
    (w.andThen next).fault = none ↔ w.fault = none ∧ (next w.reached).fault = none := by
  obtain ⟨q, fault⟩ := w
  cases fault with
  | some error => exact iff_of_false nofun fun h => nomatch h.1
  | none => exact (and_iff_right rfl).symm

theorem emitted_andThen_le {w : Walk} (next : Progress → Walk) {a b : Nat} (hw : w.emitted ≤ a)
    (hnext : ∀ q, (next q).emitted ≤ q.emitted.size + b) : (w.andThen next).emitted ≤ a + b := by
  obtain ⟨q, fault⟩ := w
  cases fault with
  | some error => exact hw.trans (Nat.le_add_right a b)
  | none => exact (hnext q).trans (Nat.add_le_add_right hw b)

end Walk

mutual

theorem Item.fault_walk : ∀ (i : Item) (p : Progress), (i.walk p).fault = none ↔ i.Sound
  | .point time what, p => iff_of_true rfl trivial
  | .span start stop what inside, p => by
      rw [Item.walk, Walk.fault_andThen, fault_walkAll inside]
      exact and_iff_left rfl
  | .fault error, p => iff_of_false nofun fun h => h
termination_by structural i => i

/-- A walk goes through if and only if there is no fault among its items. -/
theorem fault_walkAll : ∀ (is : List Item) (p : Progress),
    (walkAll is p).fault = none ↔ SoundAll is
  | [], p => iff_of_true rfl trivial
  | i :: is, p => by
      rw [walkAll, Walk.fault_andThen, i.fault_walk, fault_walkAll is]
      rfl
termination_by structural is => is

end

mutual

theorem Item.size_walk_le : ∀ (i : Item) (p : Progress),
    (i.walk p).emitted ≤ p.emitted.size + (i.starts + i.others)
  | .point time what, p => (Array.size_push _).le
  | .span start stop what inside, p => by
      have hinside := size_walkAll_le inside (p.addStart start what.first)
      have hfirst : (p.addStart start what.first).emitted.size = p.emitted.size + 1 :=
        Array.size_push _
      have hboth := Walk.emitted_andThen_le
        (fun q => ⟨q.add ⟨none, stop, what.last p.nextId⟩, none⟩) hinside
        fun q => (Array.size_push _).le
      rw [Item.walk]
      refine hboth.trans ?_
      show _ ≤ p.emitted.size + (1 + startsAll inside + (othersAll inside + 1))
      unfold sizeAll
      omega
  | .fault error, p => Nat.le_add_right _ _
termination_by structural i => i

/-- A walk emits no more events than its items have. -/
theorem size_walkAll_le : ∀ (is : List Item) (p : Progress),
    (walkAll is p).emitted ≤ p.emitted.size + sizeAll is
  | [], p => Nat.le_refl _
  | i :: is, p => by
      have hboth := Walk.emitted_andThen_le (fun q => walkAll is q) (i.size_walk_le p)
        (size_walkAll_le is)
      rw [walkAll, sizeAll_cons]
      omega
termination_by structural is => is

end

mutual

theorem Item.size_walk : ∀ (i : Item) (p : Progress), i.Sound →
    (i.walk p).emitted = p.emitted.size + (i.starts + i.others)
  | .point time what, p, _ => Array.size_push _
  | .span start stop what inside, p, h => by
      have hinside := size_walkAll inside (p.addStart start what.first) h
      have hfirst : (p.addStart start what.first).emitted.size = p.emitted.size + 1 :=
        Array.size_push _
      have hlast : ∀ q : Progress, (q.add ⟨none, stop, what.last p.nextId⟩).emitted.size =
        q.emitted.size + 1 := fun q => Array.size_push _
      rw [Item.walk, Walk.andThen_of_sound ((fault_walkAll inside _).mpr h)]
      refine (hlast _).trans ?_
      show (walkAll inside (p.addStart start what.first)).emitted + 1 =
        p.emitted.size + (1 + startsAll inside + (othersAll inside + 1))
      unfold sizeAll at hinside
      omega
  | .fault error, p, h => absurd h fun hf => hf
termination_by structural i => i

/-- A walk without a fault emits all events of its items. -/
theorem size_walkAll : ∀ (is : List Item) (p : Progress), SoundAll is →
    (walkAll is p).emitted = p.emitted.size + sizeAll is
  | [], p, _ => rfl
  | i :: is, p, h => by
      have hfirst := i.size_walk p h.1
      have hrest := size_walkAll is (i.walk p).reached h.2
      have hsize : (i.walk p).reached.emitted.size = (i.walk p).emitted := rfl
      rw [walkAll, Walk.andThen_of_sound ((i.fault_walk p).mpr h.1), hrest, sizeAll_cons]
      omega
termination_by structural is => is

end

/-! ## Experiments -/

theorem length_stamp (tick : Float) (next : Nat) (pending : List Pending) :
    (stamp tick next pending).length = pending.length := by
  induction pending generalizing next with
  | nil => rfl
  | cons e rest ih =>
      obtain ⟨id?, time, kind⟩ := e
      cases id? with
      | none => exact congrArg Nat.succ (ih (next + 1))
      | some id => exact congrArg Nat.succ (ih next)

namespace Experiment

/-- The walk of the tree of an experiment. -/
def walk (x : Experiment) (expand : Bool) : Walk := walkAll (x.outline expand) .nothing

/-- The events of the tree that are emitted, up to its first fault. -/
def emitted (x : Experiment) (expand : Bool) : Nat := (x.walk expand).emitted

/-- The flattened experiment, if no limit is met. -/
def flattenFreely (x : Experiment) (tick : Float) (expand : Bool) :
    Except TimelineError (List Event) := do
  let p ← (x.walk expand).outcome
  pure (stamp tick p.nextId (initialResets x.devices ++ p.emitted.toList))

/-- Lowering the tree is emitting its outline. -/
theorem lowerRoot_eq (x : Experiment) (o : LoweringOptions) :
    x.lowerRoot o = emitAll o.maxEvents (x.outline o.expandLoops) .nothing := by
  unfold lowerRoot outline
  cases x.root with
  | none => rfl
  | some root => exact lower_eq o root 0 none .nothing

section Room

variable {x : Experiment} {tick : Float} {o : LoweringOptions}

/-- A limit that leaves room for all events that are emitted has no effect. -/
theorem flatten_of_room (h : x.emitted o.expandLoops ≤ o.maxEvents) :
    x.flatten tick o = x.flattenFreely tick o.expandLoops := by
  unfold flatten flattenFreely
  rw [lowerRoot_eq, (emitAll_follows o.maxEvents (x.outline o.expandLoops) .nothing).within h]
  rfl

/-- A limit that leaves no room for all of them is the failure, whatever else may fail. -/
theorem flatten_of_full (h : o.maxEvents < x.emitted o.expandLoops) :
    x.flatten tick o = .error (.tooManyEvents o.maxEvents) := by
  unfold flatten
  rw [lowerRoot_eq, (emitAll_follows o.maxEvents (x.outline o.expandLoops) .nothing).beyond
    (Nat.zero_le _) h]
  rfl

/-- The limit affects the timeline only through the flattened experiment. -/
theorem timeline_congr {o' : LoweringOptions} (d : Diagnostics)
    (h : x.flatten tick o = x.flatten tick o') : x.timeline d tick o = x.timeline d tick o' := by
  unfold timeline flattenLogged
  rw [h]

end Room

/-- No more events are emitted than the tree can lower to. -/
theorem emitted_le (x : Experiment) (expand : Bool) : x.emitted expand ≤ x.eventCount expand := by
  have hwalk := size_walkAll_le (x.outline expand) .nothing
  have hempty : Progress.nothing.emitted.size = 0 := rfl
  rw [hempty, Nat.zero_add] at hwalk
  exact hwalk.trans (x.size_outline_le expand)

/-- All events of an outline without a fault are emitted. -/
theorem emitted_of_sound {x : Experiment} {expand : Bool} (h : SoundAll (x.outline expand)) :
    x.emitted expand = sizeAll (x.outline expand) :=
  (size_walkAll (x.outline expand) .nothing h).trans (Nat.zero_add _)

/-- Where nothing fails and no limit is met, the flattened experiment is all events of the score. -/
theorem flatten_of_sound {x : Experiment} {tick : Float} {o : LoweringOptions}
    (hsound : SoundAll (x.outline o.expandLoops)) (hroom : x.emitted o.expandLoops ≤ o.maxEvents) :
    x.flatten tick o =
      .ok (eventsAll tick (x.score o.expandLoops) 0 (startsAll (x.score o.expandLoops))) := by
  have hfault : (x.walk o.expandLoops).fault = none := (fault_walkAll _ _).mpr hsound
  have hfree : ∃ events, x.flatten tick o = .ok events := by
    rw [flatten_of_room hroom]
    unfold flattenFreely Walk.outcome
    rw [hfault]
    exact ⟨_, rfl⟩
  obtain ⟨events, h⟩ := hfree
  rw [h, (flatten_ok h).2]

/-- If nothing fails, the flattened experiment is the initial resets and all events emitted. -/
theorem length_flattenFreely {x : Experiment} {tick : Float} {expand : Bool} {events : List Event}
    (h : x.flattenFreely tick expand = .ok events) :
    events.length = (initialResets x.devices).length + x.emitted expand := by
  obtain ⟨p, hwalk, hstamp⟩ := bind_ok h
  have hreached : p = (x.walk expand).reached := by
    unfold Walk.outcome at hwalk
    split at hwalk
    · cases hwalk
    · exact (Except.ok.inj hwalk).symm
  cases hstamp
  rw [length_stamp, List.length_append, Array.length_toList, hreached]
  rfl

end Experiment

/-- Let a limit leave room for all events that the tree of an experiment can lower to.  Then the
    flattened experiment is what the walk of the tree gives: the fault that ended it, or all events
    emitted, behind the initial resets.  Any other limit has no effect, neither on the flattened
    experiment nor on the timeline, if it leaves room for the events emitted in this walk.  If it
    does not, it is the failure of both.  Initial resets are not counted: if nothing is emitted,
    even the limit zero has no effect. -/
theorem limit_law {x : Experiment} {expand : Bool} {limit : Nat}
    (hroom : x.eventCount expand ≤ limit) (d : Diagnostics) (tick : Float) :
    (x.flatten tick ⟨expand, limit⟩ =
      match (x.walk expand).fault with
      | some error => .error error
      | none => .ok (stamp tick (x.walk expand).reached.nextId
          (initialResets x.devices ++ (x.walk expand).reached.emitted.toList))) ∧
    (∀ m, x.emitted expand ≤ m →
      x.flatten tick ⟨expand, m⟩ = x.flatten tick ⟨expand, limit⟩ ∧
        x.timeline d tick ⟨expand, m⟩ = x.timeline d tick ⟨expand, limit⟩) ∧
    (∀ m, m < x.emitted expand →
      x.flatten tick ⟨expand, m⟩ = .error (.tooManyEvents m) ∧
        (x.timeline d tick ⟨expand, m⟩).outcome = .error (.tooManyEvents m)) ∧
    ∀ events, x.flatten tick ⟨expand, limit⟩ = .ok events →
      events.length = (initialResets x.devices).length + x.emitted expand ∧
        (x.emitted expand = 0 → x.flatten tick ⟨expand, 0⟩ = .ok events) := by
  have hfree : ∀ m, x.emitted expand ≤ m →
      x.flatten tick ⟨expand, m⟩ = x.flattenFreely tick expand := fun m hm =>
    Experiment.flatten_of_room (o := ⟨expand, m⟩) hm
  have hlimit := hfree limit ((x.emitted_le expand).trans hroom)
  refine ⟨?_, fun m hm => ?_, fun m hm => ?_, fun events h => ?_⟩
  · rw [hlimit]
    unfold Experiment.flattenFreely Walk.outcome
    cases (x.walk expand).fault <;> rfl
  · have hsame := (hfree m hm).trans hlimit.symm
    exact ⟨hsame, Experiment.timeline_congr d hsame⟩
  · have hfull : x.flatten tick ⟨expand, m⟩ = .error (.tooManyEvents m) :=
      Experiment.flatten_of_full (o := ⟨expand, m⟩) hm
    refine ⟨hfull, ?_⟩
    rw [Experiment.outcome_timeline, hfull]
    rfl
  · rw [hlimit] at h
    refine ⟨Experiment.length_flattenFreely h, fun hzero => ?_⟩
    rw [hfree 0 (Nat.le_of_eq hzero), h]

/-- A section with a play and, behind it, an iteration that belongs to no loop. -/
def stray : Experiment :=
  { duet with
    root := some ⟨.root, none, [
      (0, ⟨.sect ⟨⟨7⟩⟩, some 100, [
        (0, .leaf (.play ⟨⟨⟨0⟩⟩, none, none, 0.0, none, none⟩) (some 20)),
        (20, .leaf (.iteration ⟨⟨7⟩⟩ 0 []) (some 20)),
        (40, .leaf (.delay ⟨⟨0⟩⟩ none none) (some 20))]⟩)]⟩ }

/-- The stray iteration is the failure as long as there is room for the three events before it. -/
theorem stray_limit : stray.eventCount true ≤ 8 ∧ stray.emitted true = 3 ∧
    stray.flatten 1e-9 ⟨true, 3⟩ = .error (.strayIteration 20) ∧
    stray.flatten 1e-9 ⟨true, 2⟩ = .error (.tooManyEvents 2) := by
  have hroom : stray.eventCount true ≤ 8 := by decide
  have hemitted : stray.emitted true = 3 := by decide
  have hfails : stray.flatten 1e-9 ⟨true, 8⟩ = .error (.strayIteration 20) := by decide +kernel
  obtain ⟨_, hwithin, hbeyond, _⟩ := limit_law hroom ⟨false⟩ 1e-9
  refine ⟨hroom, hemitted, ?_, ?_⟩
  · rw [← hfails]
    exact (hwithin 3 (by rw [hemitted])).1
  · exact (hbeyond 2 (by rw [hemitted]; decide)).1

end PulseTimeline
