/-
  What a tour sees of software oscillators, and the frequency history that it makes.

  1. **Sightings** — the places of an experiment are the nodes that its tour enters, every turn of
     every loop included; so they come in depth-first order, each before what it holds.  At a place
     each setting of a software oscillator is seen on each signal of the oscillator, and a setting
     of a hardware oscillator is not seen at all.

  2. **Walks** — the walk that observes a tree threads the start through it, in 64 bits, and the tour
     reads the start off the way; both come by the same nodes (`reached_tour`) and see the same
     (`frequencyHistory_sightings`).

  3. **History** — hence what the history of an experiment answers is read off the tour
     (`frequencyHistory_answers`).  The lowering may well refuse the tree: neither its lengths nor
     the places of its iterations matter here.
-/
import PulseTimeline.Proofs.Tour
import PulseTimeline.Proofs.StepFunctions

namespace PulseTimeline

/-! ## Sightings -/

/-- The place that is entered, if this step enters one. -/
def Passage.entered? : Passage → Option Place
  | .enter p => some p
  | .leave _ => none

/-- The places of an experiment in depth-first order, all turns of loops included. -/
def Experiment.places (x : Experiment) : List Place := (x.tour true).filterMap Passage.entered?

/-- What a setting shows at a time: its value on every signal of its oscillator, if that is emulated
    in software. -/
def FrequencySetting.sightings (time : Int) (s : FrequencySetting) : List Observation :=
  match s.oscillator.kind with
  | .software => s.oscillator.signals.map fun uid => ⟨uid, time, s.value⟩
  | .hardware => []

/-- What is seen on entering a place, at the sum of the offsets on the way to it, in 64 bits. -/
def Place.sightings (p : Place) : List Observation :=
  p.kind.settings.flatMap (FrequencySetting.sightings p.start)

/-- What is seen on the tour of an experiment. -/
def Experiment.sightings (x : Experiment) : List Observation := x.places.flatMap Place.sightings

/-- A setting is seen on the signals of a software oscillator. -/
theorem FrequencySetting.mem_sightings {time : Int} {s : FrequencySetting} {o : Observation} :
    o ∈ s.sightings time ↔ s.oscillator.kind = .software ∧ o.signal ∈ s.oscillator.signals ∧
      o.time = time ∧ o.value = s.value := by
  obtain ⟨⟨uid, kind, signals⟩, value, parameter⟩ := s
  obtain ⟨signal, seen, shown⟩ := o
  cases kind with
  | hardware => simp [sightings]
  | software =>
      simp only [sightings, List.mem_map, Observation.mk.injEq, true_and]
      constructor
      · rintro ⟨uid, huid, rfl, rfl, rfl⟩
        exact ⟨huid, rfl, rfl⟩
      · rintro ⟨huid, rfl, rfl⟩
        exact ⟨signal, huid, rfl, rfl, rfl⟩

/-! ## Walks -/

mutual

/-- The walk that adds up offsets comes by the places of the tour, each at its start. -/
theorem Node.reached_tour : ∀ (n : Node) (offsets : List Int) (above : List NodeKind),
    n.reached (offsets.sum.bmod 0x10000000000000000) =
      ((n.tour true offsets above).filterMap Passage.entered?).map fun p => (p.start, p.kind)
  | ⟨kind, length, children⟩, offsets, above => by
      have hinside := reachedChildren_tour children kind.isLoop offsets (kind :: above)
      rw [Node.reached, Node.tour]
      show _ = (_, kind) :: ((_ ++ [Passage.leave _]).filterMap Passage.entered?).map _
      rw [List.filterMap_append, List.map_append]
      show _ = (_, kind) :: (_ ++ [])
      rw [List.append_nil]
      split
      · rw [hinside]
        rfl
      · rfl
termination_by structural n => n

theorem reachedChildren_tour : ∀ (children : List (Int × Node)) (inLoop : Bool)
    (offsets : List Int) (above : List NodeKind),
    reachedChildren children (offsets.sum.bmod 0x10000000000000000) =
      ((childTours true children inLoop offsets above).filterMap Passage.entered?).map
        fun p => (p.start, p.kind)
  | [], _, _, _ => rfl
  | (offset, child) :: children, inLoop, offsets, above => by
      -- The walk adds the offset of the child to the start so far, the tour puts it on the way.
      have hchild := Node.reached_tour child (offset :: offsets) above
      rw [List.sum_cons, Int.add_comm, ← addTicks_bmod] at hchild
      rw [reachedChildren, childTours, hchild, reachedChildren_tour children inLoop offsets above,
        Bool.true_or, if_pos rfl, List.filterMap_append, List.map_append]
termination_by structural children => children

end

/-- The walk reaches the places of the tour, in order. -/
theorem Experiment.reached_places (x : Experiment) :
    x.reached = x.places.map fun p => (p.start, p.kind) := by
  unfold reached places tour
  cases x.root with
  | none => rfl
  | some root => exact root.reached_tour [] []

theorem FrequencySetting.observations_eq (time : Int) (settings : List FrequencySetting) :
    observations time settings = settings.flatMap (sightings time) := by
  induction settings with
  | nil => rfl
  | cons s rest ih =>
      obtain ⟨⟨uid, kind, signals⟩, value, parameter⟩ := s
      rw [List.flatMap_cons, ← ih]
      cases kind <;> rfl

/-- The history of an experiment is made of what is seen on its tour. -/
theorem Experiment.frequencyHistory_sightings (x : Experiment) :
    x.frequencyHistory = .ofObservations x.sightings := by
  rw [frequencyHistory_eq, reached_places, List.flatMap_map]
  exact congrArg FrequencyHistory.ofObservations (List.flatMap_congr fun p _ =>
    FrequencySetting.observations_eq p.start p.kind.settings)

/-! ## History -/

/-- The history of an experiment is that of a table in which the sightings are gathered signal by
    signal.  It knows the signals that were seen, in the order in which they first were, and that is
    those of the software oscillators that are set anywhere in the tree; each since it was seen
    first.  At any time it answers with the last sighting of the signal among those at the latest
    time that is not later.  A sighting is at the sum of the offsets on the way to its place, in 64
    bits, which is the plain sum within the range of ticks. -/
theorem Experiment.frequencyHistory_answers (x : Experiment) :
    x.frequencyHistory = .ofTable (FrequencyHistory.gather x.sightings) ∧
    x.frequencyHistory.signals = (x.sightings.map Observation.signal).eraseDups ∧
    (∀ uid, uid ∈ x.frequencyHistory.signals ↔ ∃ p ∈ x.places, ∃ s ∈ p.kind.settings,
      s.oscillator.kind = .software ∧ uid ∈ s.oscillator.signals) ∧
    (∀ uid, x.frequencyHistory.earliest? uid = (FrequencyHistory.times x.sightings uid).min? ∧
      ∀ time, x.frequencyHistory.frequencyAt? uid time =
        (latestBy time (FrequencyHistory.times x.sightings uid)).bind fun latest =>
          (x.sightings.filter fun o => o.signal = uid ∧ o.time = latest).getLast?.map
            Observation.value) ∧
    (∀ p ∈ x.places, p.start = p.offsets.sum.bmod 0x10000000000000000 ∧
      (IsTick p.offsets.sum → p.start = p.offsets.sum)) := by
  rw [x.frequencyHistory_sightings]
  have hsignals := FrequencyHistory.signals_ofObservations x.sightings
  refine ⟨(FrequencyHistory.ofTable_gather _).symm, hsignals, fun uid => ?_, fun uid =>
    ⟨FrequencyHistory.earliest?_ofObservations _ uid, fun time =>
      FrequencyHistory.frequencyAt?_ofObservations _ uid time⟩,
    fun p _ => ⟨rfl, p.start_of_isTick⟩⟩
  rw [hsignals, List.mem_eraseDups, List.mem_map]
  constructor
  · rintro ⟨o, ho, rfl⟩
    obtain ⟨p, hp, ho⟩ := List.mem_flatMap.mp ho
    obtain ⟨s, hs, ho⟩ := List.mem_flatMap.mp ho
    obtain ⟨hkind, hsignal, _⟩ := FrequencySetting.mem_sightings.mp ho
    exact ⟨p, hp, s, hs, hkind, hsignal⟩
  · rintro ⟨p, hp, s, hs, hkind, hsignal⟩
    refine ⟨⟨uid, p.start, s.value⟩, List.mem_flatMap.mpr ⟨p, hp, ?_⟩, rfl⟩
    exact List.mem_flatMap.mpr ⟨s, hs, FrequencySetting.mem_sightings.mpr ⟨hkind, hsignal, rfl, rfl⟩⟩

/-- A tree that cannot be lowered: an iteration without a loop around it, lengths left open, and
    settings directly in a loop.  They do not come in order of time, and two of them are at 50. -/
def ragged : Experiment :=
  let tune (value : Float) (kind : OscillatorKind) : Node :=
    .leaf (.setFrequency ⟨⟨7⟩⟩ [⟨⟨⟨⟨5⟩⟩, kind, [⟨⟨1⟩⟩, ⟨⟨0⟩⟩]⟩, value, none⟩] 0) none
  { duet with root := some ⟨.iteration ⟨⟨7⟩⟩ 0 [], none, [
      (40, ⟨.sect ⟨⟨7⟩⟩, none, [(10, tune 2e6 .software), (0, tune 9e6 .hardware)]⟩),
      (20, ⟨.loop ⟨⟨7⟩⟩ 2, some 5, [(0, tune 1e6 .software), (30, tune 3e6 .software)]⟩)]⟩ }

example :
    (ragged.flatten 1e-9 ⟨true, 100⟩).toOption = none ∧
    ragged.sightings.map Observation.time = [50, 50, 20, 20, 50, 50] ∧
    ragged.frequencyHistory.signals = [⟨⟨1⟩⟩, ⟨⟨0⟩⟩] ∧
    [19, 20, 49, 50].map (ragged.frequencyHistory.frequencyAt? ⟨⟨0⟩⟩) =
      [none, some 1e6, some 1e6, some 3e6] := by
  decide +kernel

/-- Two offsets of half the range of positive ticks add up to the least number of ticks. -/
example :
    let tune : Node := .leaf (.setFrequency ⟨⟨7⟩⟩ [⟨⟨⟨⟨5⟩⟩, .software, [⟨⟨0⟩⟩]⟩, 1e6, none⟩] 0) none
    let x : Experiment := { duet with root := some ⟨.root, none, [
      (0x4000000000000000, ⟨.sect ⟨⟨7⟩⟩, none, [(0x4000000000000000, tune)]⟩)]⟩ }
    x.frequencyHistory.earliest? ⟨⟨0⟩⟩ = some minTick := by
  decide +kernel

end PulseTimeline
