/-
  What schedules of frequency settings lower to.

  1. **Pairing** — the settings of a schedule are its oscillators beside its values, each with the
     parameter at the same place, if there is one (`pairSettings_eq`).

  2. **Numbering** — the events of a row of spans, or of a row of points, numbered as they stand in
     the row (`eventsAll_spans`, `eventsAll_points`), behind the initial resets
     (`eventsAll_resets`).

  3. **Schedules** — a tree that holds the node of a schedule and nothing else.  For a sweep step,
     lowering and placing fail together, unless sums of ticks are checked and the end does not fit;
     initial frequencies are lowered even if their length is open (`schedules_lower`).
-/
import PulseTimeline.Proofs.TickRange
import PulseTimeline.Schedule.Frequency

namespace PulseTimeline

/-! ## Pairing -/

/-- The settings are numbered from `k`, as the parameters are. -/
theorem pairSettings_drop (parameters : List ParameterUid) (oscillators : List Oscillator)
    (values : List Float) (k : Nat) :
    pairSettings oscillators values (parameters.drop k) =
      ((oscillators.zip values).zipIdx k).map fun p =>
        ⟨p.1.1, p.1.2, parameters[p.2]?⟩ := by
  induction oscillators generalizing values k with
  | nil => rfl
  | cons o os ih =>
      cases values with
      | nil => rfl
      | cons v vs =>
          rw [List.zip_cons_cons, List.zipIdx_cons, List.map_cons, ← ih]
          cases hk : parameters[k]? with
          | none =>
              have hle : parameters.length ≤ k := List.getElem?_eq_none_iff.mp hk
              rw [List.drop_eq_nil_of_le hle, List.drop_eq_nil_of_le (Nat.le_succ_of_le hle)]
              rfl
          | some q =>
              obtain ⟨hlt, rfl⟩ := List.getElem?_eq_some_iff.mp hk
              rw [List.drop_eq_getElem_cons hlt]
              rfl

/-- The settings are the oscillators beside the values; each has the parameter at its place. -/
theorem pairSettings_eq (oscillators : List Oscillator) (values : List Float)
    (parameters : List ParameterUid) :
    pairSettings oscillators values parameters =
      (oscillators.zip values).zipIdx.map fun p => ⟨p.1.1, p.1.2, parameters[p.2]?⟩ :=
  pairSettings_drop parameters oscillators values 0

/-- One setting is made for each oscillator. -/
theorem length_pairSettings {oscillators : List Oscillator} {values : List Float}
    (h : oscillators.length = values.length) (parameters : List ParameterUid) :
    (pairSettings oscillators values parameters).length = oscillators.length := by
  rw [pairSettings_eq, List.length_map, List.length_zipIdx, List.length_zip, h, Nat.min_self]

/-- Oscillators and values are paired if they are as many. -/
theorem frequencySettings_ok {oscillators : List Oscillator} {values : List Float}
    {parameters : List ParameterUid} {settings : List FrequencySetting} :
    frequencySettings oscillators values parameters = .ok settings ↔
      oscillators.length = values.length ∧
        settings = pairSettings oscillators values parameters := by
  unfold frequencySettings
  split
  · rename_i h
    rw [Except.ok.injEq, and_iff_right h, eq_comm]
  · rename_i h
    exact iff_of_false nofun fun hboth => h hboth.1

/-- Pairing fails if oscillators and values differ in number, and reports both. -/
theorem frequencySettings_error {oscillators : List Oscillator} {values : List Float}
    {parameters : List ParameterUid} {e : ScheduleError} :
    frequencySettings oscillators values parameters = .error e ↔
      oscillators.length ≠ values.length ∧
        e = .valueCount values.length oscillators.length := by
  unfold frequencySettings
  split
  · rename_i h
    exact iff_of_false nofun fun hboth => hboth.1 h
  · rename_i h
    rw [Except.error.injEq, and_iff_right h, eq_comm]

/-! ## Numbering -/

section Numbering

variable (tick : Float) {α : Type} (as : List α) (next other k : Nat)

/-- The spans of a row, nothing inside: each start is followed by its end. -/
theorem eventsAll_spans (start stop : Int) (what : α × Nat → Lasting) :
    eventsAll tick ((as.zipIdx k).map fun p => .span start stop (what p) []) (next + k)
        (other + k) =
      (as.zipIdx k).flatMap fun p =>
        [⟨next + p.2, .ofTicks tick start, (what p).first⟩,
          ⟨other + p.2, .ofTicks tick stop, (what p).last (next + p.2)⟩] := by
  induction as generalizing k with
  | nil => rfl
  | cons a as ih =>
      rw [List.zipIdx_cons, List.map_cons, List.flatMap_cons, ← ih]
      rfl

/-- Points in a row are numbered in a row, at one instant. -/
theorem eventsAll_points (time : Int) (what : α × Nat → Momentary) :
    eventsAll tick ((as.zipIdx k).map fun p => .point time (what p)) next (other + k) =
      (as.zipIdx k).map fun p => ⟨other + p.2, .ofTicks tick time, (what p).kind⟩ := by
  induction as generalizing k with
  | nil => rfl
  | cons a as ih =>
      rw [List.zipIdx_cons, List.map_cons, List.map_cons, ← ih]
      rfl

end Numbering

/-- Empty spans have one start each. -/
theorem startsAll_spans {α : Type} (start stop : Int) (what : α → Lasting) (as : List α) :
    startsAll (as.map fun a => .span start stop (what a) []) = as.length := by
  induction as with
  | nil => rfl
  | cons a as ih =>
      rw [List.map_cons, startsAll, ih, List.length_cons, Nat.add_comm]
      rfl

/-- Points have no start. -/
theorem startsAll_points {α : Type} (time : Int) (what : α → Momentary) (as : List α) :
    startsAll (as.map fun a => .point time (what a)) = 0 := by
  induction as with
  | nil => rfl
  | cons a as ih =>
      rw [List.map_cons, startsAll, ih]
      rfl

namespace Experiment

/-- The initial resets are numbered first, then what is not a start among the items. -/
theorem eventsAll_resets (tick : Float) (devices : List Device) (is : List Item)
    (next other : Nat) : eventsAll tick (resetItems devices ++ is) next other =
      stamp tick other (initialResets devices) ++
        eventsAll tick is next (other + (initialResets devices).length) := by
  induction devices generalizing other with
  | nil => rfl
  | cons d ds ih =>
      simp only [resetItems, initialResets, List.filterMap_cons] at ih ⊢
      cases d.kind.traits with
      | none => exact ih other
      | some traits =>
          by_cases hreset : traits.resetsPhase = true
          · have hrest := ih (other + 1)
            rw [Nat.succ_add_eq_add_succ] at hrest
            simp only [if_pos hreset, List.cons_append, eventsAll, stamp, List.length_cons]
            exact congrArg _ hrest
          · simp only [if_neg hreset]
            exact ih other

/-- Items without a fault and within the limit lower to all of their events, behind the initial
    resets. -/
theorem flatten_of_outline {x : Experiment} {tick : Float} {o : LoweringOptions} {is : List Item}
    (houtline : x.outline o.expandLoops = is) (hsound : SoundAll is)
    (hlimit : sizeAll is ≤ o.maxEvents) :
    x.flatten tick o = .ok (stamp tick (startsAll is) (initialResets x.devices) ++
      eventsAll tick is 0 (startsAll is + (initialResets x.devices).length)) := by
  subst houtline
  have hroom : x.emitted o.expandLoops ≤ o.maxEvents := emitted_of_sound hsound ▸ hlimit
  have hstarts : startsAll (x.score o.expandLoops) = startsAll (x.outline o.expandLoops) :=
    (resetItems_eq x.devices (x.outline o.expandLoops) 0).2
  rw [flatten_of_sound hsound hroom, hstarts, score, eventsAll_resets]

/-! ## Schedules -/

/-- The experiment with another tree, in which the root holds a single node at `start`. -/
def holding (x : Experiment) (rootLength : Option Int) (start : Int) (n : Node) : Experiment :=
  { x with root := some ((Node.leaf .root rootLength).withChild start n) }

section Holding

variable {x : Experiment} {rootLength length : Option Int} {start : Int} {kind : NodeKind}
  {tick : Float} {o : LoweringOptions}

/-- The node starts at its offset from the root. -/
theorem outline_holding (hstart : IsTick start) (hkind : kind.isIteration = false)
    (expand : Bool) : (x.holding rootLength start (.leaf kind length)).outline expand =
      kind.items length start none [] := by
  have hplace : addTicks 0 start = start := by
    rw [← Int.zero_add start] at hstart
    rw [addTicks_of_isTick hstart, Int.zero_add]
  have hleaf : (Node.leaf kind length).outline expand (addTicks 0 start) none =
      kind.items length start none [] := by
    rw [Node.outline_eq, hplace]
    exact kind.placed_of_nested hkind.symm _ _
  show (Node.leaf kind length).outline expand (addTicks 0 start) none ++ [] = _
  rw [List.append_nil, hleaf]

/-- Where sums of ticks are checked, the end of the node has to fit too, if it is an event. -/
theorem checked_holding (hstart : IsTick start) {expand : Bool} {α : Type}
    {outcome : Except TimelineError α} :
    (∃ a, (x.holding rootLength start (.leaf kind length)).checked expand outcome = some a) ↔
      (∃ a, outcome = .ok a) ∧
        (kind.lasts = true → ∀ ticks, length = some ticks → IsTick (start + ticks)) := by
  have hnothing : (if kind.holds = true then childSums expand [] kind.isLoop start else []) = [] :=
    ite_self []
  have hsums : (x.holding rootLength start (.leaf kind length)).sums expand =
      0 :: start :: kind.ends length start := by
    show 0 :: ((Node.leaf kind length).sums expand (0 + start) ++ ite _ [] []) = _
    rw [ite_self, Int.zero_add, List.append_nil]
    exact congrArg (0 :: start :: ·) ((congrArg _ hnothing).trans (List.append_nil _))
  have hzero : IsTick 0 := by decide
  rw [checked_exists_iff, ← isTick_sums, hsums, List.forall_mem_cons, List.forall_mem_cons,
    NodeKind.forall_ends, and_iff_right hzero, and_iff_right hstart]

/-- A leaf whose end is an event is not lowered while its length is open. -/
theorem flatten_open (hstart : IsTick start) (hkind : kind.isIteration = false)
    (hlasts : kind.lasts = true) :
    (x.holding rootLength start (.leaf kind none)).flatten tick o =
      .error (.unresolvedLength kind.name start) := by
  unfold flatten
  rw [lowerRoot_eq, outline_holding hstart hkind, NodeKind.items_of_open hlasts]
  rfl

/-- A leaf whose end is known, if it has one, is lowered to all of its events. -/
theorem flatten_leaf (hstart : IsTick start) (hkind : kind.isIteration = false)
    (hlength : kind.lasts = true → length.isSome = true) (hlimit : kind.eventCount ≤ o.maxEvents) :
    (x.holding rootLength start (.leaf kind length)).flatten tick o =
      .ok (stamp tick (startsAll (kind.items length start none [])) (initialResets x.devices) ++
        eventsAll tick (kind.items length start none []) 0
          (startsAll (kind.items length start none []) + (initialResets x.devices).length)) := by
  have hsize : sizeAll (kind.items length start none []) = kind.eventCount := by
    have hnothing : (if kind.holds = true then sizeAll [] else 0) = 0 := ite_self 0
    rw [NodeKind.size_items hlength, hnothing, Nat.add_zero]
  exact flatten_of_outline (outline_holding hstart hkind _)
    (NodeKind.sound_items.mpr ⟨hlength, fun _ => trivial⟩) (hsize ▸ hlimit)

end Holding

end Experiment

namespace FrequencyStep

/-- The events of a sweep step: for each oscillator in order a start at `first`, and its end at
    `last`, when the frequency has settled.  `resets` initial resets are numbered before the ends. -/
def events (s : FrequencyStep) (first last : Seconds) (resets : Nat) : List Event :=
  (s.oscillators.zip s.values).zipIdx.flatMap fun ((o, value), i) =>
    [⟨i, first, .setFrequencyStart
        ⟨o.uid, o.signals, value, s.parameters[i]?, some s.owner, s.iteration⟩⟩,
      ⟨s.oscillators.length + resets + i, last, .setFrequencyEnd o.uid o.signals i⟩]

/-- What it is to lower the tree `x` in which the node of a sweep step starts at `start`.  It
    succeeds if and only if the schedule can be placed there; where sums of ticks are checked, the
    end has to fit besides.  The starts are at the double of `start` times the tick, and the ends at
    that of `start + length`, in 64 bits.  It fails at the same start as placing, for the same
    reason. -/
structure Lowered (s : FrequencyStep) (start : Int) (x : Experiment) (tick : Float)
    (o : LoweringOptions) : Prop where
  succeeds : (∃ events, x.flatten tick o = .ok events) ↔ ∃ t, s.place start = .ok t
  checked : (∃ events, x.checked o.expandLoops (x.flatten tick o) = some events) ↔
    ∃ length, s.length = some length ∧ IsTick (start + length)
  placed : ∀ t, s.place start = .ok t → t = start ∧ ∃ (length : Int) (first last : Seconds),
    s.length = some length ∧
    first.Holds (Float.ofInt start * tick) ∧
    last.Holds (Float.ofInt ((start + length).bmod 0x10000000000000000) * tick) ∧
    (IsTick (start + length) → last.Holds (Float.ofInt (start + length) * tick)) ∧
    x.flatten tick o = .ok (stamp tick s.oscillators.length (initialResets x.devices) ++
      s.events first last (initialResets x.devices).length)
  fails : ∀ e, s.place start = .error e → s.length = none ∧
    e = .unresolvedLength "OscillatorFrequencyStepSchedule" start ∧
    x.flatten tick o = .error (.unresolvedLength "SetOscillatorFrequency" start)

end FrequencyStep

namespace InitialFrequencies

/-- The events of initial frequencies at `first`, one for each oscillator in order. -/
def events (s : InitialFrequencies) (first : Seconds) (resets : Nat) : List Event :=
  (s.oscillators.zip s.values).zipIdx.map fun ((o, value), i) =>
    ⟨resets + i, first, .initialFrequency ⟨o.uid, o.signals, value, none, none, 0⟩⟩

/-- What it is to lower the tree `x` in which the node of initial frequencies starts at `start`: it
    succeeds, even where the schedule cannot be placed because its length is open. -/
structure Lowered (s : InitialFrequencies) (start : Int) (x : Experiment) (tick : Float)
    (o : LoweringOptions) : Prop where
  events : ∃ first : Seconds, first.Holds (Float.ofInt start * tick) ∧
    x.flatten tick o = .ok (stamp tick 0 (initialResets x.devices) ++
      s.events first (initialResets x.devices).length)
  checked : ∃ events, x.checked o.expandLoops (x.flatten tick o) = some events
  fails : ∀ e, s.place start = .error e ↔ s.length = none ∧
    e = .unresolvedLength "InitialOscillatorFrequencySchedule" start

end InitialFrequencies

section Lower

variable (x : Experiment) (rootLength : Option Int) {start : Int} (hstart : IsTick start)
  (tick : Float) {o : LoweringOptions}

namespace FrequencyStep

variable {s : FrequencyStep} {n : Node}

theorem node_ok (h : s.node = .ok n) : s.oscillators.length = s.values.length ∧
    n = .leaf (.setFrequency s.owner (pairSettings s.oscillators s.values s.parameters)
      s.iteration) s.length := by
  obtain ⟨settings, hsettings, hn⟩ := bind_ok h
  obtain ⟨hlength, rfl⟩ := frequencySettings_ok.mp hsettings
  exact ⟨hlength, (Except.ok.inj hn).symm⟩

theorem node_error {e : ScheduleError} : s.node = .error e ↔
    s.oscillators.length ≠ s.values.length ∧
      e = .valueCount s.values.length s.oscillators.length := by
  refine Iff.trans ?_ (@frequencySettings_error s.oscillators s.values s.parameters e)
  unfold node
  cases frequencySettings s.oscillators s.values s.parameters with
  | ok settings => exact iff_of_false nofun nofun
  | error e' =>
      show Except.error e' = Except.error e ↔ _
      rw [Except.error.injEq, Except.error.injEq]

theorem place_some {length : Int} (h : s.length = some length) (start : Int) :
    s.place start = .ok start := by
  unfold place
  rw [h]

theorem place_none (h : s.length = none) (start : Int) : s.place start =
    .error (.unresolvedLength "OscillatorFrequencyStepSchedule" start) := by
  unfold place
  rw [h]

/-- The items of the node are spans, numbered by the oscillators. -/
theorem items_node (start length : Int) :
    (NodeKind.setFrequency s.owner (pairSettings s.oscillators s.values s.parameters)
      s.iteration).items (some length) start none [] =
      (s.oscillators.zip s.values).zipIdx.map fun p => .span start (addTicks start length)
        (.frequency ⟨p.1.1.uid, p.1.1.signals, p.1.2, s.parameters[p.2]?, some s.owner,
          s.iteration⟩) [] := by
  show (pairSettings _ _ _).map _ = _
  rw [pairSettings_eq, List.map_map]
  rfl

include hstart in
theorem flatten_some {length : Int} (h : s.node = .ok n) (hlength : s.length = some length)
    (hlimit : 2 * s.oscillators.length ≤ o.maxEvents) :
    (x.holding rootLength start n).flatten tick o =
      .ok (stamp tick s.oscillators.length (initialResets x.devices) ++
        s.events (.ofTicks tick start) (.ofTicks tick (addTicks start length))
          (initialResets x.devices).length) := by
  obtain ⟨hcount, rfl⟩ := node_ok h
  have hroom : (NodeKind.setFrequency s.owner
      (pairSettings s.oscillators s.values s.parameters) s.iteration).eventCount ≤ o.maxEvents := by
    rw [← length_pairSettings hcount s.parameters] at hlimit
    exact hlimit
  have hstarts : (s.oscillators.zip s.values).zipIdx.length = s.oscillators.length := by
    rw [List.length_zipIdx, List.length_zip, hcount, Nat.min_self]
  have hevents := eventsAll_spans tick (s.oscillators.zip s.values) 0
    (s.oscillators.length + (initialResets x.devices).length) 0 start (addTicks start length)
    fun p => .frequency ⟨p.1.1.uid, p.1.1.signals, p.1.2, s.parameters[p.2]?, some s.owner,
      s.iteration⟩
  simp only [Nat.zero_add, Nat.add_zero] at hevents
  rw [hlength, Experiment.flatten_leaf hstart rfl (fun _ => rfl) hroom, items_node,
    startsAll_spans, hstarts, hevents]
  rfl

include hstart in
theorem flatten_none (h : s.node = .ok n) (hlength : s.length = none) :
    (x.holding rootLength start n).flatten tick o =
      .error (.unresolvedLength "SetOscillatorFrequency" start) := by
  obtain ⟨-, rfl⟩ := node_ok h
  rw [hlength]
  exact Experiment.flatten_open hstart rfl rfl

include hstart in
/-- Lowering the node looks at the length of the schedule, as placing the schedule does. -/
theorem lowered (h : s.node = .ok n) (hlimit : 2 * s.oscillators.length ≤ o.maxEvents) :
    s.Lowered start (x.holding rootLength start n) tick o := by
  have hchecked : (∃ events, (x.holding rootLength start n).checked o.expandLoops
      ((x.holding rootLength start n).flatten tick o) = some events) ↔
      (∃ events, (x.holding rootLength start n).flatten tick o = .ok events) ∧
        ∀ length, s.length = some length → IsTick (start + length) := by
    obtain ⟨-, rfl⟩ := node_ok h
    rw [Experiment.checked_holding hstart]
    exact and_congr_right fun _ => ⟨fun hends => hends rfl, fun hends _ => hends⟩
  cases hlength : s.length with
  | some length =>
      have hplace := s.place_some hlength start
      have hflatten := flatten_some x rootLength hstart tick h hlength hlimit
      refine ⟨iff_of_true ⟨_, hflatten⟩ ⟨_, hplace⟩, ?_, fun t ht => ?_, fun e he => ?_⟩
      · rw [hchecked, and_iff_right ⟨_, hflatten⟩, hlength]
        exact ⟨fun hends => ⟨length, rfl, hends length rfl⟩,
          fun ⟨_, hsome, hend⟩ _ hsome' => by cases hsome; cases hsome'; exact hend⟩
      · refine ⟨Except.ok.inj (ht.symm.trans hplace), length, _, _, hlength,
          Seconds.holds_ofTicks tick start, Seconds.holds_ofTicks tick (addTicks start length),
          fun hend => ?_, hflatten⟩
        rw [addTicks_of_isTick hend]
        exact Seconds.holds_ofTicks tick (start + length)
      · cases hplace.symm.trans he
  | none =>
      have hplace := s.place_none hlength start
      have hflatten := flatten_none x rootLength hstart tick (o := o) h hlength
      refine ⟨?_, ?_, fun t ht => ?_, fun e he => ?_⟩
      · rw [hflatten, hplace]
        exact iff_of_false nofun nofun
      · rw [hchecked, hflatten, hlength]
        exact iff_of_false nofun nofun
      · cases hplace.symm.trans ht
      · exact ⟨hlength, Except.error.inj (he.symm.trans hplace), hflatten⟩

end FrequencyStep

namespace InitialFrequencies

variable {s : InitialFrequencies} {n : Node}

theorem node_ok (h : s.node = .ok n) : s.oscillators.length = s.values.length ∧
    n = .leaf (.initialFrequency (pairSettings s.oscillators s.values [])) s.length := by
  obtain ⟨settings, hsettings, hn⟩ := bind_ok h
  obtain ⟨hlength, rfl⟩ := frequencySettings_ok.mp hsettings
  exact ⟨hlength, (Except.ok.inj hn).symm⟩

theorem place_error (start : Int) {e : ScheduleError} : s.place start = .error e ↔ s.length = none ∧
    e = .unresolvedLength "InitialOscillatorFrequencySchedule" start := by
  unfold place
  cases s.length with
  | some length => exact iff_of_false nofun nofun
  | none => rw [Except.error.injEq, and_iff_right rfl, eq_comm]

/-- The items of the node are points, numbered by the oscillators. -/
theorem items_node (start : Int) (length : Option Int) :
    (NodeKind.initialFrequency (pairSettings s.oscillators s.values [])).items length start none
      [] = (s.oscillators.zip s.values).zipIdx.map fun p => .point start
        (.initialFrequency ⟨p.1.1.uid, p.1.1.signals, p.1.2, none, none, 0⟩) := by
  show (pairSettings _ _ _).map _ = _
  rw [pairSettings_eq, List.map_map]
  rfl

include hstart in
theorem flatten_ok (h : s.node = .ok n) (hlimit : s.oscillators.length ≤ o.maxEvents) :
    (x.holding rootLength start n).flatten tick o =
      .ok (stamp tick 0 (initialResets x.devices) ++
        s.events (.ofTicks tick start) (initialResets x.devices).length) := by
  obtain ⟨hcount, rfl⟩ := node_ok h
  have hroom : (NodeKind.initialFrequency (pairSettings s.oscillators s.values [])).eventCount ≤
      o.maxEvents := by
    rw [← length_pairSettings hcount []] at hlimit
    exact hlimit
  have hevents := eventsAll_points tick (s.oscillators.zip s.values) 0
    (initialResets x.devices).length 0 start
    fun p => .initialFrequency ⟨p.1.1.uid, p.1.1.signals, p.1.2, none, none, 0⟩
  have hlength : (NodeKind.initialFrequency (pairSettings s.oscillators s.values [])).lasts = true →
      s.length.isSome = true := nofun
  rw [Experiment.flatten_leaf hstart rfl hlength hroom, items_node, startsAll_points, Nat.zero_add]
  exact congrArg _ (congrArg _ hevents)

include hstart in
/-- Lowering the node does not look at the length of the schedule. -/
theorem lowered (h : s.node = .ok n) (hlimit : s.oscillators.length ≤ o.maxEvents) :
    s.Lowered start (x.holding rootLength start n) tick o := by
  have hflatten := flatten_ok x rootLength hstart tick h hlimit
  refine ⟨⟨_, Seconds.holds_ofTicks tick start, hflatten⟩, ?_, fun _ => place_error start⟩
  obtain ⟨-, rfl⟩ := node_ok h
  exact (Experiment.checked_holding hstart).mpr ⟨⟨_, hflatten⟩, nofun⟩

end InitialFrequencies

end Lower

/-- A sweep step has a node if and only if there are as many values as oscillators.  Let the node
    stand alone under a root, and let there be room for its events.  Then lowering this tree and
    placing the schedule succeed or fail together, and the events are a start and its end for each
    oscillator.  The node of initial frequencies lowers to one event for each oscillator, whether or
    not the schedule can be placed.  In 64 bits an end that does not fit wraps around; where sums of
    ticks are checked, it is what else can fail. -/
theorem schedules_lower (s : FrequencyStep) (z : InitialFrequencies) {start : Int}
    (hstart : IsTick start) :
    (∀ e, s.node = .error e ↔ s.oscillators.length ≠ s.values.length ∧
      e = .valueCount s.values.length s.oscillators.length) ∧
    (∀ n, s.node = .ok n → ∀ (x : Experiment) (rootLength : Option Int) (tick : Float)
      (o : LoweringOptions), 2 * s.oscillators.length ≤ o.maxEvents →
        s.Lowered start (x.holding rootLength start n) tick o) ∧
    ∀ n, z.node = .ok n → ∀ (x : Experiment) (rootLength : Option Int) (tick : Float)
      (o : LoweringOptions), z.oscillators.length ≤ o.maxEvents →
        z.Lowered start (x.holding rootLength start n) tick o :=
  ⟨fun _ => FrequencyStep.node_error,
    fun _ h x rootLength tick _ hlimit => FrequencyStep.lowered x rootLength hstart tick h hlimit,
    fun _ h x rootLength tick _ hlimit =>
      InitialFrequencies.lowered x rootLength hstart tick h hlimit⟩

/-- Two swept oscillators, the second one without a parameter of its own. -/
def sweptPair : FrequencyStep :=
  ⟨⟨⟨7⟩⟩, [⟨⟨⟨5⟩⟩, .software, [⟨⟨0⟩⟩, ⟨⟨2⟩⟩]⟩, ⟨⟨⟨6⟩⟩, .hardware, [⟨⟨1⟩⟩]⟩], [⟨⟨8⟩⟩], [1e6, 2e6], 3,
    some 32⟩

/-- The same oscillators at the start of the experiment, their settling time not known yet. -/
def unsettledPair : InitialFrequencies := ⟨⟨⟨7⟩⟩, sweptPair.oscillators, [5e6, 6e6], none⟩

/-- The starts of the sweep step are at 100 ns and its ends at 132 ns; the two ends carry the ids
    behind the starts and the reset.  The initial frequencies are lowered although the schedule
    cannot be placed. -/
theorem pair_lowers :
    (∃ n, sweptPair.node = .ok n ∧
      sweptPair.Lowered 100 (duet.holding none 100 n) 1e-9 ⟨true, 4⟩ ∧
      (duet.holding none 100 n).flatten 1e-9 ⟨true, 4⟩ = .ok [
        ⟨2, ⟨(0.0 : Float).toBits⟩, .initialReset ⟨⟨9⟩⟩ 56e-9⟩,
        ⟨0, ⟨(1.0000000000000001e-7 : Float).toBits⟩, .setFrequencyStart
          ⟨⟨⟨5⟩⟩, [⟨⟨0⟩⟩, ⟨⟨2⟩⟩], 1e6, some ⟨⟨8⟩⟩, some ⟨⟨7⟩⟩, 3⟩⟩,
        ⟨3, ⟨(1.3200000000000002e-7 : Float).toBits⟩,
          .setFrequencyEnd ⟨⟨5⟩⟩ [⟨⟨0⟩⟩, ⟨⟨2⟩⟩] 0⟩,
        ⟨1, ⟨(1.0000000000000001e-7 : Float).toBits⟩, .setFrequencyStart
          ⟨⟨⟨6⟩⟩, [⟨⟨1⟩⟩], 2e6, none, some ⟨⟨7⟩⟩, 3⟩⟩,
        ⟨4, ⟨(1.3200000000000002e-7 : Float).toBits⟩, .setFrequencyEnd ⟨⟨6⟩⟩ [⟨⟨1⟩⟩] 1⟩]) ∧
    ∃ n, unsettledPair.node = .ok n ∧
      unsettledPair.place 100 =
        .error (.unresolvedLength "InitialOscillatorFrequencySchedule" 100) ∧
      unsettledPair.Lowered 100 (duet.holding none 100 n) 1e-9 ⟨true, 2⟩ := by
  obtain ⟨-, hstep, hinitial⟩ := @schedules_lower sweptPair unsettledPair 100 (by decide)
  exact ⟨⟨_, rfl, hstep _ rfl duet none 1e-9 ⟨true, 4⟩ (by decide), by decide +kernel⟩,
    ⟨_, rfl, rfl, hinitial _ rfl duet none 1e-9 ⟨true, 2⟩ (by decide)⟩⟩

/-- Placed at the last tick, a sweep step ends where the range begins again. -/
example :
    let x := duet.holding none maxTick
      (.leaf (.setFrequency ⟨⟨7⟩⟩ [⟨⟨⟨⟨5⟩⟩, .software, []⟩, 1e6, none⟩] 0) (some 1))
    ((x.flatten 1.0 ⟨true, 2⟩).toOption.getD []).map (fun e => e.time.toFloat) =
      [0.0, 9223372036854775808.0, -9223372036854775808.0] ∧
    x.checked true (x.flatten 1.0 ⟨true, 2⟩) = none := by
  decide +kernel

end PulseTimeline
