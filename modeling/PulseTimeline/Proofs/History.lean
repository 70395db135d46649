/-
  What a frequency history answers.

  1. **Times** — `latestBy t times` is the latest of some times that is not after `t`.

  2. **Series** — a series answers with the value at the latest of its times (`lastValue?_eq`).

  3. **History** — of several observations of a signal at a time the last one counts
     (`valueAt_ofObservations`), and a history answers with the value that counts at the latest time
     at which the signal was observed (`frequencyAt?_ofObservations`).  The table of series and
     their order of insertion do not appear in the answer.
-/
import Mathlib.Data.List.Basic
import PulseTimeline.FrequencyHistory

namespace PulseTimeline

/-! ## The latest time -/

/-- The latest of the times that is not after `t`. -/
def latestBy (t : Int) (times : List Int) : Option Int := (times.filter (· ≤ t)).max?

/-- The latest time at or before `t`: it is in the list, and no other such time is greater. -/
theorem latestBy_eq_some {t s : Int} {times : List Int} :
    latestBy t times = some s ↔ s ∈ times ∧ s ≤ t ∧ ∀ r ∈ times, r ≤ t → r ≤ s := by
  unfold latestBy
  rw [List.max?_eq_some_iff]
  simp only [List.mem_filter, decide_eq_true_eq]
  constructor
  · rintro ⟨⟨hs, hle⟩, hmax⟩
    exact ⟨hs, hle, fun r hr hrt => hmax r ⟨hr, hrt⟩⟩
  · rintro ⟨hs, hle, hmax⟩
    exact ⟨⟨hs, hle⟩, fun r hr => hmax r hr.1 hr.2⟩

theorem latestBy_eq_none {t : Int} {times : List Int} :
    latestBy t times = none ↔ ∀ r ∈ times, t < r := by
  unfold latestBy
  rw [List.max?_eq_none_iff, List.filter_eq_nil_iff]
  simp only [decide_eq_true_eq, Int.not_le]

/-- The latest time depends only on which times there are. -/
theorem latestBy_congr {t : Int} {as bs : List Int} (h : ∀ r, r ∈ as ↔ r ∈ bs) :
    latestBy t as = latestBy t bs := by
  cases hb : latestBy t bs with
  | none =>
      rw [latestBy_eq_none] at hb ⊢
      intro r hr
      exact hb r ((h r).mp hr)
  | some s =>
      rw [latestBy_eq_some] at hb ⊢
      obtain ⟨hs, hle, hmax⟩ := hb
      exact ⟨(h s).mpr hs, hle, fun r hr => hmax r ((h r).mp hr)⟩

/-! ## Series -/

namespace Series

/-- A value entered at a time is found there, and leaves all others. -/
theorem lookup_enterPoint (time q : Int) (value : Float) (points : List (Int × Float)) :
    (enterPoint time value points).lookup q =
      if q = time then some value else points.lookup q := by
  induction points with
  | nil =>
      unfold enterPoint
      by_cases hq : q = time
      · simp [hq]
      · have hq' : (q == time) = false := by simpa using hq
        simp [List.lookup_cons, hq, hq']
  | cons p rest ih =>
      obtain ⟨t, v⟩ := p
      unfold enterPoint
      by_cases hq : q = time
      · subst hq
        rw [if_pos rfl]
        split
        · simp
        · split
          · simp
          · rename_i hlt hne
            have hne' : (q == t) = false := by simpa using hne
            rw [List.lookup_cons, hne', ih, if_pos rfl]
      · have hq' : (q == time) = false := by simpa using hq
        rw [if_neg hq] at ih ⊢
        split
        · simp [List.lookup_cons, hq']
        · split
          · rename_i hlt heq
            subst heq
            simp [List.lookup_cons, hq']
          · rw [List.lookup_cons, List.lookup_cons, ih]

theorem lookup_isSome {points : List (Int × Float)} {q : Int} :
    (points.lookup q).isSome = true ↔ q ∈ points.map Prod.fst := by
  induction points with
  | nil => simp
  | cons p rest ih =>
      obtain ⟨t, v⟩ := p
      by_cases hq : q = t
      · simp [hq]
      · have hq' : (q == t) = false := by simpa using hq
        rw [List.lookup_cons, hq', ih, List.map_cons, List.mem_cons]
        simp [hq]

/-- If all points are later there is no value yet. -/
theorem lastValue?_of_later {t : Int} {points : List (Int × Float)}
    (h : ∀ p ∈ points, t < p.1) : lastValue? t points = none := by
  cases points with
  | nil => rfl
  | cons p rest =>
      have hlt : t < p.1 := h p List.mem_cons_self
      unfold lastValue?
      rw [if_neg (by omega)]

/-- Among points in order of time, the last value at or before `t` is that of the latest time. -/
theorem lastValue?_of_latest {t s : Int} {v : Float} {points : List (Int × Float)}
    (hsorted : points.Pairwise fun a b => a.1 < b.1) (hs : points.lookup s = some v) (hle : s ≤ t)
    (hmax : ∀ p ∈ points, p.1 ≤ t → p.1 ≤ s) : lastValue? t points = some v := by
  induction points with
  | nil => cases hs
  | cons p rest ih =>
      obtain ⟨r, w⟩ := p
      obtain ⟨hr, hrest⟩ := List.pairwise_cons.mp hsorted
      have hrs : r ≤ t → r ≤ s := hmax (r, w) List.mem_cons_self
      unfold lastValue?
      by_cases hsr : s = r
      · -- All other points are later than `s`, hence later than `t`.
        subst hsr
        have hlater : lastValue? t rest = none := by
          refine lastValue?_of_later fun p hp => ?_
          have hlt : s < p.1 := hr p hp
          have hle' := hmax p (List.mem_cons_of_mem _ hp)
          by_contra hnot
          have := hle' (by omega)
          omega
        rw [List.lookup_cons_self, Option.some.injEq] at hs
        rw [if_pos hle, hlater, Option.none_or, hs]
      · have hne : (s == r) = false := by simpa using hsr
        simp only [List.lookup_cons, hne] at hs
        have hlt : r < s := by
          have hmem : s ∈ rest.map Prod.fst := by
            rw [← lookup_isSome, hs]
            rfl
          obtain ⟨p, hp, rfl⟩ := List.mem_map.mp hmem
          exact hr p hp
        rw [if_pos (by omega), ih hrest hs fun p hp => hmax p (List.mem_cons_of_mem _ hp)]
        rfl

/-- Points in order of time answer with the value at the latest of their times. -/
theorem lastValue?_eq {points : List (Int × Float)}
    (hsorted : points.Pairwise fun a b => a.1 < b.1) (t : Int) :
    lastValue? t points =
      (latestBy t (points.map Prod.fst)).bind fun s => points.lookup s := by
  cases hlatest : latestBy t (points.map Prod.fst) with
  | none =>
      rw [latestBy_eq_none] at hlatest
      exact lastValue?_of_later fun p hp => hlatest p.1 (List.mem_map_of_mem hp)
  | some s =>
      rw [latestBy_eq_some] at hlatest
      obtain ⟨hmem, hle, hmax⟩ := hlatest
      obtain ⟨v, hv⟩ := Option.isSome_iff_exists.mp (lookup_isSome.mpr hmem)
      rw [Option.bind_some, hv]
      exact lastValue?_of_latest hsorted hv hle fun p hp => hmax p.1 (List.mem_map_of_mem hp)

end Series

/-! ## History -/

namespace FrequencyHistory

/-- The observed value of a signal at exactly this time. -/
def valueAt (h : FrequencyHistory) (uid : SignalUid) (time : Int) : Option Float :=
  (h.series.get? uid).bind fun s => s.points.lookup time

/-- An observation gives the value of its signal at its time. -/
theorem valueAt_observe (h : FrequencyHistory) (o : Observation) (uid : SignalUid) (time : Int) :
    (h.observe o).valueAt uid time =
      if o.signal = uid ∧ o.time = time then some o.value else h.valueAt uid time := by
  unfold valueAt observe
  rw [Table.get?_alter]
  by_cases huid : uid = o.signal
  · subst huid
    rw [if_pos rfl, Option.bind_some]
    show (enterPoint o.time o.value _).lookup time = _
    rw [Series.lookup_enterPoint]
    have hold : (((h.series.get? o.signal).getD .empty).points).lookup time =
        (h.series.get? o.signal).bind fun s => s.points.lookup time := by
      cases h.series.get? o.signal <;> rfl
    rw [hold]
    simp only [true_and, eq_comm]
  · have huid' : ¬ o.signal = uid := fun ho => huid ho.symm
    rw [if_neg huid, if_neg fun ho => huid' ho.1]

/-- Of the observations at a time the last one counts, whatever was observed before. -/
theorem valueAt_foldl (observations : List Observation) (uid : SignalUid) (time : Int) :
    ∀ h : FrequencyHistory, (observations.foldl observe h).valueAt uid time =
      ((observations.filter fun o => o.signal = uid ∧ o.time = time).getLast?.map
        Observation.value).or (h.valueAt uid time) := by
  induction observations with
  | nil => intro h; rfl
  | cons o os ih =>
      intro h
      rw [List.foldl_cons, ih, valueAt_observe]
      by_cases ho : o.signal = uid ∧ o.time = time
      · rw [List.filter_cons_of_pos (by simpa using ho), if_pos ho, List.getLast?_cons]
        cases (os.filter fun o => o.signal = uid ∧ o.time = time).getLast? <;> rfl
      · rw [List.filter_cons_of_neg (by simpa using ho), if_neg ho]

/-- Of several observations of a signal at a time, the last one counts. -/
theorem valueAt_ofObservations (observations : List Observation) (uid : SignalUid) (time : Int) :
    (ofObservations observations).valueAt uid time =
      (observations.filter fun o => o.signal = uid ∧ o.time = time).getLast?.map
        Observation.value := by
  unfold ofObservations
  rw [valueAt_foldl]
  exact Option.or_none

/-- The times at which a signal was observed. -/
def times (observations : List Observation) (uid : SignalUid) : List Int :=
  (observations.filter fun o => o.signal = uid).map Observation.time

/-- A value counts at exactly those times at which the signal was observed. -/
theorem isSome_valueAt_ofObservations {observations : List Observation} {uid : SignalUid}
    {s : Int} : ((ofObservations observations).valueAt uid s).isSome = true ↔
      s ∈ times observations uid := by
  unfold times
  rw [valueAt_ofObservations, Option.isSome_map, List.getLast?_isSome, ne_eq,
    List.filter_eq_nil_iff, List.mem_map]
  simp only [decide_eq_true_eq, not_forall, not_not, List.mem_filter]
  constructor
  · rintro ⟨o, ho, hsignal, htime⟩
    exact ⟨o, ⟨ho, hsignal⟩, htime⟩
  · rintro ⟨o, ⟨ho, hsignal⟩, htime⟩
    exact ⟨o, ho, hsignal, htime⟩

/-- A history answers with the value that counts at the latest time at which the signal was
    observed. -/
theorem frequencyAt?_ofObservations (observations : List Observation) (uid : SignalUid) (t : Int) :
    (ofObservations observations).frequencyAt? uid t =
      (latestBy t (times observations uid)).bind fun s =>
        (observations.filter fun o => o.signal = uid ∧ o.time = s).getLast?.map
          Observation.value := by
  have htimes : ∀ s, ((ofObservations observations).valueAt uid s).isSome = true ↔
      s ∈ times observations uid := fun s => isSome_valueAt_ofObservations
  simp only [← valueAt_ofObservations observations uid]
  unfold frequencyAt?
  unfold valueAt at htimes ⊢
  cases hseries : (ofObservations observations).series.get? uid with
  | none =>
      rw [hseries] at htimes
      have hnone : latestBy t (times observations uid) = none := by
        rw [latestBy_eq_none]
        intro r hr
        have hfalse := (htimes r).mpr hr
        cases hfalse
      rw [hnone]
      rfl
  | some s =>
      rw [hseries] at htimes
      have hkeys : ∀ r, r ∈ s.points.map Prod.fst ↔ r ∈ times observations uid := by
        intro r
        rw [← Series.lookup_isSome]
        exact htimes r
      show Series.lastValue? t s.points = _
      rw [Series.lastValue?_eq s.increasing, latestBy_congr hkeys]
      rfl

end FrequencyHistory

end PulseTimeline
