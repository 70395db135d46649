/-
  The frequencies of software oscillators over time, per signal.

  1. **Series** — the observed values of one signal in order of time, one value per time.  The
     value at a time is the last one observed at or before it.

  2. **Observations** — walking the tree, every frequency setting with a software oscillator is
     observed on each signal of that oscillator, at the absolute start of its node.  Nodes that
     hold others are walked in full, all iterations of a loop included.

  3. **History** — the series of the observed signals, in the order of their first observation; of
     several observations at the same time, the last one counts.
-/
import PulseTimeline.Experiment
import PulseTimeline.Table
import PulseTimeline.Time

namespace PulseTimeline

/-! ## Series -/

/-- Enter a value at a time into points in order of time; a value already there is replaced. -/
def enterPoint (time : Int) (value : Float) : List (Int × Float) → List (Int × Float)
  | [] => [(time, value)]
  | (t, v) :: rest =>
      if time < t then (time, value) :: (t, v) :: rest
      else if time = t then (time, value) :: rest
      else (t, v) :: enterPoint time value rest

theorem fst_of_mem_enterPoint {time : Int} {value : Float} {points : List (Int × Float)}
    {p : Int × Float} (h : p ∈ enterPoint time value points) : p.1 = time ∨ p ∈ points := by
  induction points with
  | nil => simp [enterPoint] at h; exact .inl (by rw [h])
  | cons q rest ih =>
      obtain ⟨t, v⟩ := q
      simp only [enterPoint] at h
      split at h
      · rcases List.mem_cons.mp h with rfl | h
        · exact .inl rfl
        · exact .inr h
      · split at h
        · rcases List.mem_cons.mp h with rfl | h
          · exact .inl rfl
          · exact .inr (List.mem_cons_of_mem _ h)
        · rcases List.mem_cons.mp h with rfl | h
          · exact .inr List.mem_cons_self
          · rcases ih h with h | h
            · exact .inl h
            · exact .inr (List.mem_cons_of_mem _ h)

theorem pairwise_enterPoint (time : Int) (value : Float) {points : List (Int × Float)}
    (h : points.Pairwise fun a b => a.1 < b.1) :
    (enterPoint time value points).Pairwise fun a b => a.1 < b.1 := by
  induction points with
  | nil => simp [enterPoint]
  | cons q rest ih =>
      obtain ⟨t, v⟩ := q
      obtain ⟨hq, hr⟩ := List.pairwise_cons.mp h
      simp only [enterPoint]
      split
      · rename_i hlt
        refine List.pairwise_cons.mpr ⟨fun b hb => ?_, h⟩
        rcases List.mem_cons.mp hb with rfl | hb
        · exact hlt
        · have := hq b hb
          show time < b.1
          omega
      · split
        · rename_i heq
          subst heq
          exact List.pairwise_cons.mpr ⟨hq, hr⟩
        · refine List.pairwise_cons.mpr ⟨fun b hb => ?_, ih hr⟩
          rcases fst_of_mem_enterPoint hb with hb | hb
          · show t < b.1
            omega
          · exact hq b hb

/-- The observed values of a signal in order of time, one value per time. -/
structure Series where
  points : List (Int × Float)
  increasing : points.Pairwise fun a b => a.1 < b.1

namespace Series

/-- The series without values. -/
def empty : Series := ⟨[], .nil⟩

/-- Enter a value at a time; a value already there is replaced. -/
def enter (s : Series) (time : Int) (value : Float) : Series :=
  ⟨enterPoint time value s.points, pairwise_enterPoint time value s.increasing⟩

/-- The time of the first value. -/
def earliest? (s : Series) : Option Int := s.points.head?.map Prod.fst

/-- The last value at or before a time, among points in order of time. -/
def lastValue? (time : Int) : List (Int × Float) → Option Float
  | [] => none
  | (t, v) :: rest => if t ≤ time then (lastValue? time rest).or (some v) else none

/-- The last value at or before a time. -/
def at? (s : Series) (time : Int) : Option Float := lastValue? time s.points

end Series

/-! ## Observations -/

/-- A value observed on a signal. -/
structure Observation where
  signal : SignalUid
  time : Int
  value : Float
deriving DecidableEq

/-- What settings that take effect at `time` let be observed on signals modulated in software. -/
def FrequencySetting.observations (time : Int) (settings : List FrequencySetting) :
    List Observation :=
  (settings.filter fun s => !s.oscillator.isHardware).flatMap fun s =>
    s.oscillator.signals.map fun uid => ⟨uid, time, s.value⟩

namespace Node

mutual

/-- What can be observed in a tree that starts at `start`, in depth-first order. -/
def observations : Node → Int → List Observation
  | ⟨.setFrequency _ settings _, _, _⟩, start => FrequencySetting.observations start settings
  | ⟨.initialFrequency settings, _, _⟩, start => FrequencySetting.observations start settings
  | ⟨.root, _, children⟩, start => childObservations children start
  | ⟨.sect _, _, children⟩, start => childObservations children start
  | ⟨.loop .., _, children⟩, start => childObservations children start
  | ⟨.iteration .., _, children⟩, start => childObservations children start
  | ⟨.play .., _, _⟩, _ => []
  | ⟨.acquire .., _, _⟩, _ => []
  | ⟨.delay .., _, _⟩, _ => []
  | ⟨.resetSoftwarePhase _, _, _⟩, _ => []
  | ⟨.resetHardwarePhase _, _, _⟩, _ => []
termination_by structural n => n

/-- What can be observed in the children of a node that starts at `start`. -/
def childObservations : List (Int × Node) → Int → List Observation
  | [], _ => []
  | (offset, child) :: children, start =>
      observations child (addTicks start offset) ++ childObservations children start
termination_by structural children => children

end

end Node

/-! ## History -/

/-- The frequencies of software oscillators over time, per signal. -/
structure FrequencyHistory where
  series : Table SignalUid Series

namespace FrequencyHistory

/-- The history with one more observation. -/
def observe (h : FrequencyHistory) (o : Observation) : FrequencyHistory :=
  ⟨h.series.alter o.signal fun s => (s.getD .empty).enter o.time o.value⟩

/-- The history of a list of observations. -/
def ofObservations (observations : List Observation) : FrequencyHistory :=
  observations.foldl observe ⟨.empty⟩

/-- The history of the observations listed for each signal, each a time and a value. -/
def ofTable (t : Table SignalUid (List (Int × Float))) : FrequencyHistory :=
  ofObservations (t.entries.flatMap fun (uid, points) =>
    points.map fun (time, value) => ⟨uid, time, value⟩)

/-- The observed signals, in the order of their first observation. -/
def signals (h : FrequencyHistory) : List SignalUid := h.series.keys

/-- The time of the first observation on a signal. -/
def earliest? (h : FrequencyHistory) (uid : SignalUid) : Option Int :=
  (h.series.get? uid).bind Series.earliest?

/-- The frequency of a signal at a time: the last one observed at or before it. -/
def frequencyAt? (h : FrequencyHistory) (uid : SignalUid) (time : Int) : Option Float :=
  (h.series.get? uid).bind fun s => s.at? time

end FrequencyHistory

/-- The frequencies of the software oscillators of an experiment over time. -/
def Experiment.frequencyHistory (x : Experiment) : FrequencyHistory :=
  .ofObservations (match x.root with
    | some root => root.observations 0
    | none => [])

end PulseTimeline
