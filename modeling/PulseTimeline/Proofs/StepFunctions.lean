/-
  A frequency history as a step function per signal.

  1. **Specification** — `StepFunction points earliest f`: as a function of time, `f` begins at
     `earliest`, takes at the time of a point the value of the last point with this time, and stays
     level until the next time of a point.  The points may come in any order, and a time may occur
     more than once.

  2. **Observations** — which signals a history knows, and since when (`signals_ofObservations`,
     `earliest?_ofObservations`).  A history is determined by its signals and by the values that
     count at each time (`eq_of_valueAt`).

  3. **Tables** — the history of a table of points answers for a signal from the points listed there,
     since the keys of a table are distinct (`filter_observationsIn`).  So it is a step function for
     every signal, and depends on a list only up to the order of points at different times
     (`ofTable_stepFunction`).

  4. **Gathering** — observations may as well be gathered in a table first, the points of each signal
     in a list of their own (`ofTable_gather`).
-/
import Mathlib.Data.List.Induction
import PulseTimeline.Proofs.History

namespace PulseTimeline

/-! ## Specification -/

/-- The value of the last of the points at a time. -/
def lastAt (points : List (Int × Float)) (time : Int) : Option Float :=
  (points.filter fun p => p.1 = time).getLast?.map Prod.snd

/-- The step function of some points, each a time and a value. -/
structure StepFunction (points : List (Int × Float)) (earliest : Option Int)
    (f : Int → Option Float) : Prop where
  /-- There are values from the earliest time on, and none before it. -/
  defined : ∀ time, (f time).isSome = true ↔ ∃ e, earliest = some e ∧ e ≤ time
  /-- At the time of a point, the last point with this time counts. -/
  jump : ∀ t ∈ points.map Prod.fst, f t = lastAt points t
  /-- From the time of a point on, the value stays until there is another point. -/
  level : ∀ t ∈ points.map Prod.fst, ∀ time, t ≤ time →
    (∀ r ∈ points.map Prod.fst, ¬ (t < r ∧ r ≤ time)) → f time = f t

/-- Whether the points at any one time are the same in both lists, in the same order; so one list is
    the other one, rearranged. -/
def SameAtEachTime (points points' : List (Int × Float)) : Prop :=
  ∀ time : Int, (points.filter fun p => p.1 = time) = points'.filter fun p => p.1 = time

/-- There is a value at the times of the list and at no other. -/
theorem isSome_lastAt {points : List (Int × Float)} {t : Int} :
    (lastAt points t).isSome = true ↔ t ∈ points.map Prod.fst := by
  unfold lastAt
  rw [Option.isSome_map, List.getLast?_isSome, ne_eq, List.filter_eq_nil_iff, List.mem_map]
  simp only [decide_eq_true_eq, not_forall, not_not, exists_prop]

/-- Whether there is any point, is a matter of the last points. -/
theorem isEmpty_eq_of_lastAt {points points' : List (Int × Float)}
    (h : ∀ time, lastAt points time = lastAt points' time) : points.isEmpty = points'.isEmpty := by
  have hmem : ∀ time, time ∈ points.map Prod.fst ↔ time ∈ points'.map Prod.fst := by
    intro time
    rw [← isSome_lastAt, h, isSome_lastAt]
  have hnil : points.map Prod.fst = [] ↔ points'.map Prod.fst = [] := by
    rw [List.eq_nil_iff_forall_not_mem, List.eq_nil_iff_forall_not_mem]
    exact forall_congr' fun time => not_congr (hmem time)
  rw [List.map_eq_nil_iff, List.map_eq_nil_iff] at hnil
  rw [Bool.eq_iff_iff, List.isEmpty_iff, List.isEmpty_iff]
  exact hnil

/-- To answer with the last point at the latest time that is not too late, is a step function. -/
theorem stepFunction_latestBy (points : List (Int × Float)) :
    StepFunction points (points.map Prod.fst).min? fun time =>
      (latestBy time (points.map Prod.fst)).bind (lastAt points) := by
  have hlatest : ∀ t ∈ points.map Prod.fst, ∀ time, t ≤ time →
      (∀ r ∈ points.map Prod.fst, ¬ (t < r ∧ r ≤ time)) →
        latestBy time (points.map Prod.fst) = some t := by
    intro t ht time hle hnone
    refine latestBy_eq_some.mpr ⟨ht, hle, fun r hr hrt => ?_⟩
    have := hnone r hr
    omega
  have hself : ∀ t ∈ points.map Prod.fst, latestBy t (points.map Prod.fst) = some t := by
    intro t ht
    refine hlatest t ht t (Int.le_refl t) fun r _ => ?_
    omega
  refine ⟨fun time => ?_, fun t ht => ?_, fun t ht time hle hnone => ?_⟩
  · show ((latestBy time (points.map Prod.fst)).bind (lastAt points)).isSome = true ↔ _
    cases hby : latestBy time (points.map Prod.fst) with
    | none =>
        rw [latestBy_eq_none] at hby
        refine iff_of_false Bool.false_ne_true ?_
        rintro ⟨e, he, hle⟩
        have := hby e (List.min?_eq_some_iff.mp he).1
        omega
    | some s =>
        obtain ⟨hs, hle, _⟩ := latestBy_eq_some.mp hby
        refine iff_of_true (isSome_lastAt.mpr hs) ?_
        cases hmin : (points.map Prod.fst).min? with
        | none =>
            rw [List.min?_eq_none_iff.mp hmin] at hs
            cases hs
        | some e =>
            have := (List.min?_eq_some_iff.mp hmin).2 s hs
            exact ⟨e, rfl, by omega⟩
  · show (latestBy t (points.map Prod.fst)).bind (lastAt points) = _
    rw [hself t ht]
    rfl
  · show (latestBy time (points.map Prod.fst)).bind (lastAt points) =
      (latestBy t (points.map Prod.fst)).bind (lastAt points)
    rw [hlatest t ht time hle hnone, hself t ht]

/-! ## Series -/

namespace Series

theorem earliest?_eq (s : Series) : s.earliest? = (s.points.map Prod.fst).min? := by
  obtain ⟨points, hsorted⟩ := s
  cases points with
  | nil => rfl
  | cons p rest =>
      obtain ⟨hp, _⟩ := List.pairwise_cons.mp hsorted
      refine (List.min?_eq_some_iff.mpr ⟨List.mem_cons_self, fun r hr => ?_⟩).symm
      rcases List.mem_cons.mp hr with rfl | hr
      · exact Int.le_refl _
      · obtain ⟨q, hq, rfl⟩ := List.mem_map.mp hr
        exact Int.le_of_lt (hp q hq)

/-- A series is determined by its values at each time. -/
theorem eq_of_lookup {s s' : Series} (h : ∀ time, s.points.lookup time = s'.points.lookup time) :
    s = s' := by
  -- The times of a series are distinct, so its points are the entries of a table.
  have hsorted : ∀ s : Series, (s.points.map Prod.fst).Pairwise (· < ·) := fun s =>
    List.pairwise_map.mpr s.increasing
  have hnodup : ∀ s : Series, (s.points.map Prod.fst).Nodup := fun s =>
    (hsorted s).imp fun hlt => Int.ne_of_lt hlt
  have hkeys : s.points.map Prod.fst = s'.points.map Prod.fst := by
    refine List.Perm.eq_of_pairwise (fun a b _ _ hab hba => by omega) (hsorted s) (hsorted s') ?_
    refine (List.perm_ext_iff_of_nodup (hnodup s) (hnodup s')).mpr fun time => ?_
    rw [← lookup_isSome, ← lookup_isSome, h time]
  have htable : Table.mk s.points (hnodup s) = Table.mk s'.points (hnodup s') :=
    Table.eq_of_get? hkeys h
  obtain ⟨points, _⟩ := s
  obtain ⟨points', _⟩ := s'
  cases congrArg Table.entries htable
  rfl

end Series

namespace FrequencyHistory

/-! ## Observations -/

theorem ofObservations_concat (observations : List Observation) (o : Observation) :
    ofObservations (observations ++ [o]) = (ofObservations observations).observe o := by
  unfold ofObservations
  rw [List.foldl_append]
  rfl

/-- The signals are those observed, in the order in which they first came up. -/
theorem signals_ofObservations (observations : List Observation) :
    (ofObservations observations).signals = (observations.map Observation.signal).eraseDups := by
  induction observations using List.reverseRecOn with
  | nil => rfl
  | append_singleton os o ih =>
      rw [ofObservations_concat, List.map_append, List.map_singleton, eraseDups_concat, ← ih]
      exact Table.keys_alter _ _ _

/-- The earliest time is the least one with a value. -/
theorem earliest?_eq_some {h : FrequencyHistory} {uid : SignalUid} {e : Int} :
    h.earliest? uid = some e ↔ (h.valueAt uid e).isSome = true ∧
      ∀ r, (h.valueAt uid r).isSome = true → e ≤ r := by
  unfold earliest? valueAt
  cases h.series.get? uid with
  | none => simp
  | some s =>
      simp only [Option.bind_some, Series.earliest?_eq, List.min?_eq_some_iff, Series.lookup_isSome]

/-- A signal is known since it was first observed. -/
theorem earliest?_ofObservations (observations : List Observation) (uid : SignalUid) :
    (ofObservations observations).earliest? uid = (times observations uid).min? := by
  refine Option.ext fun e => ?_
  rw [earliest?_eq_some, List.min?_eq_some_iff]
  simp only [isSome_valueAt_ofObservations]

/-- A history is determined by its signals and by the values that count at each time. -/
theorem eq_of_valueAt {h h' : FrequencyHistory} (hsignals : h.signals = h'.signals)
    (hvalue : ∀ uid time, h.valueAt uid time = h'.valueAt uid time) : h = h' := by
  have hget : ∀ uid, h.series.get? uid = h'.series.get? uid := by
    intro uid
    have hknown : (h.series.get? uid).isSome = (h'.series.get? uid).isSome := by
      rw [Bool.eq_iff_iff, Table.isSome_get?, Table.isSome_get?]
      exact iff_of_eq (congrArg (uid ∈ ·) hsignals)
    have huid := hvalue uid
    unfold valueAt at huid
    cases hs : h.series.get? uid with
    | none =>
        rw [hs, Option.isSome_none, eq_comm, Option.isSome_eq_false_iff,
          Option.isNone_iff_eq_none] at hknown
        exact hknown.symm
    | some s =>
        rw [hs, Option.isSome_some, eq_comm, Option.isSome_iff_exists] at hknown
        obtain ⟨s', hs'⟩ := hknown
        rw [hs, hs'] at huid
        rw [hs']
        exact congrArg some (Series.eq_of_lookup huid)
  have hseries : h.series = h'.series := Table.eq_of_get? hsignals hget
  obtain ⟨series⟩ := h
  obtain ⟨series'⟩ := h'
  exact congrArg FrequencyHistory.mk hseries

/-! ## Tables -/

/-- The points that a table lists for a signal. -/
def listed (t : Table SignalUid (List (Int × Float))) (uid : SignalUid) : List (Int × Float) :=
  (t.get? uid).getD []

/-- The points of a signal as observations. -/
def observed (uid : SignalUid) (points : List (Int × Float)) : List Observation :=
  points.map fun p => ⟨uid, p.1, p.2⟩

/-- The observations that a table lists, signal by signal. -/
def observationsIn (t : Table SignalUid (List (Int × Float))) : List Observation :=
  t.entries.flatMap fun e => observed e.1 e.2

theorem ofTable_eq (t : Table SignalUid (List (Int × Float))) :
    ofTable t = ofObservations (observationsIn t) := rfl

theorem signal_of_mem_observed {uid : SignalUid} {points : List (Int × Float)} {o : Observation}
    (h : o ∈ observed uid points) : o.signal = uid := by
  obtain ⟨p, _, rfl⟩ := List.mem_map.mp h
  rfl

theorem signal_of_mem_flatMap {entries : List (SignalUid × List (Int × Float))} {o : Observation}
    (h : o ∈ entries.flatMap fun e => observed e.1 e.2) : o.signal ∈ entries.map Prod.fst := by
  obtain ⟨e, he, ho⟩ := List.mem_flatMap.mp h
  exact signal_of_mem_observed ho ▸ List.mem_map_of_mem he

/-- A table lists the observations of a signal in one place. -/
theorem filter_observationsIn (t : Table SignalUid (List (Int × Float))) (uid : SignalUid) :
    (observationsIn t).filter (fun o => o.signal = uid) = observed uid (listed t uid) := by
  obtain ⟨entries, hnodup⟩ := t
  show (entries.flatMap fun e => observed e.1 e.2).filter (fun o => o.signal = uid) =
    observed uid ((entries.lookup uid).getD [])
  induction entries with
  | nil => rfl
  | cons e rest ih =>
      obtain ⟨k, points⟩ := e
      rw [List.map_cons, List.nodup_cons] at hnodup
      rw [List.flatMap_cons, List.filter_append]
      by_cases hk : uid = k
      · subst hk
        have hown : (observed uid points).filter (fun o => o.signal = uid) = observed uid points :=
          List.filter_eq_self.mpr fun o ho => decide_eq_true (signal_of_mem_observed ho)
        have hrest : (rest.flatMap fun e => observed e.1 e.2).filter (fun o => o.signal = uid) =
            [] := by
          refine List.filter_eq_nil_iff.mpr fun o ho huid => hnodup.1 ?_
          exact of_decide_eq_true huid ▸ signal_of_mem_flatMap ho
        rw [hown, hrest, List.append_nil, List.lookup_cons_self]
        rfl
      · have hown : (observed k points).filter (fun o => o.signal = uid) = [] := by
          refine List.filter_eq_nil_iff.mpr fun o ho huid => hk ?_
          exact (of_decide_eq_true huid).symm.trans (signal_of_mem_observed ho)
        have hne : (uid == k) = false := by simpa using hk
        rw [hown, List.nil_append, ih hnodup.2, List.lookup_cons, hne]

/-- A history made from a table has the times listed in it. -/
theorem times_observationsIn (t : Table SignalUid (List (Int × Float))) (uid : SignalUid) :
    times (observationsIn t) uid = (listed t uid).map Prod.fst := by
  unfold times
  rw [filter_observationsIn, observed, List.map_map]
  rfl

/-- The last observation of a signal at a time is the last point listed there. -/
theorem lastAt_observationsIn (t : Table SignalUid (List (Int × Float))) (uid : SignalUid)
    (time : Int) :
    ((observationsIn t).filter fun o => o.signal = uid ∧ o.time = time).getLast?.map
      Observation.value = lastAt (listed t uid) time := by
  have hfilter : ((observationsIn t).filter fun o => o.signal = uid ∧ o.time = time) =
      (observed uid (listed t uid)).filter fun o => o.time = time := by
    rw [← filter_observationsIn, List.filter_filter]
    refine List.filter_congr fun o _ => ?_
    rw [Bool.decide_and, Bool.and_comm]
  rw [hfilter, observed, List.filter_map, List.getLast?_map, Option.map_map]
  rfl

/-- At a listed time the last value listed for it counts. -/
theorem valueAt_ofTable (t : Table SignalUid (List (Int × Float))) (uid : SignalUid)
    (time : Int) : (ofTable t).valueAt uid time = lastAt (listed t uid) time := by
  rw [ofTable_eq, valueAt_ofObservations, lastAt_observationsIn]

/-- Between listed times the value of the greatest time so far counts. -/
theorem frequencyAt?_ofTable (t : Table SignalUid (List (Int × Float))) (uid : SignalUid)
    (time : Int) : (ofTable t).frequencyAt? uid time =
      (latestBy time ((listed t uid).map Prod.fst)).bind (lastAt (listed t uid)) := by
  rw [ofTable_eq, frequencyAt?_ofObservations, times_observationsIn]
  refine congrArg _ (funext fun s => ?_)
  exact lastAt_observationsIn t uid s

/-- The earliest time is the least of those listed. -/
theorem earliest?_ofTable (t : Table SignalUid (List (Int × Float))) (uid : SignalUid) :
    (ofTable t).earliest? uid = ((listed t uid).map Prod.fst).min? := by
  rw [ofTable_eq, earliest?_ofObservations, times_observationsIn]

/-- Of distinct signals, those with a point are observed, in the order in which they are listed. -/
theorem eraseDups_signals {entries : List (SignalUid × List (Int × Float))}
    (hnodup : (entries.map Prod.fst).Nodup) :
    ((entries.flatMap fun e => observed e.1 e.2).map Observation.signal).eraseDups =
      (entries.filter fun e => !e.2.isEmpty).map Prod.fst := by
  induction entries with
  | nil => rfl
  | cons e rest ih =>
      obtain ⟨k, points⟩ := e
      rw [List.map_cons, List.nodup_cons] at hnodup
      rw [List.flatMap_cons, List.map_append]
      cases points with
      | nil =>
          rw [List.filter_cons_of_neg (by simp)]
          exact ih hnodup.2
      | cons p ps =>
          -- All further points of the signal are struck out, and the other signals stay.
          have hown : ((observed k ps).map Observation.signal).filter (fun b => !b == k) = [] := by
            refine List.filter_eq_nil_iff.mpr fun b hb => ?_
            obtain ⟨o, ho, rfl⟩ := List.mem_map.mp hb
            simp [signal_of_mem_observed ho]
          have hrest : ((rest.flatMap fun e => observed e.1 e.2).map Observation.signal).filter
              (fun b => !b == k) =
                (rest.flatMap fun e => observed e.1 e.2).map Observation.signal := by
            refine List.filter_eq_self.mpr fun b hb => ?_
            obtain ⟨o, ho, rfl⟩ := List.mem_map.mp hb
            have hne : o.signal ≠ k := fun hk => hnodup.1 (hk ▸ signal_of_mem_flatMap ho)
            simpa using hne
          rw [List.filter_cons_of_pos (by simp), List.map_cons, ← ih hnodup.2]
          show (k :: ((observed k ps).map Observation.signal ++ _)).eraseDups = _
          rw [List.eraseDups_cons, List.filter_append, hown, hrest, List.nil_append]

/-- The signals are the keys with a nonempty list. -/
theorem signals_ofTable (t : Table SignalUid (List (Int × Float))) :
    (ofTable t).signals = t.keys.filter fun uid => !(listed t uid).isEmpty := by
  rw [ofTable_eq, signals_ofObservations, observationsIn, eraseDups_signals t.nodup, Table.keys,
    List.filter_map]
  refine congrArg _ (List.filter_congr fun e he => ?_)
  show (!e.2.isEmpty) = !((t.get? e.1).getD []).isEmpty
  rw [Table.get?_of_mem he, Option.getD_some]

/-- The history of a table knows the signals with a point, in the order of the table, and is for each
    signal the step function of the points listed there.  Tables that list the same points at each
    time, in the same order, have the same history. -/
theorem ofTable_stepFunction :
    (∀ t : Table SignalUid (List (Int × Float)),
      (ofTable t).signals = (t.keys.filter fun uid => !(listed t uid).isEmpty) ∧
      ∀ uid, StepFunction (listed t uid) ((ofTable t).earliest? uid)
        ((ofTable t).frequencyAt? uid)) ∧
    ∀ t t' : Table SignalUid (List (Int × Float)), t.keys = t'.keys →
      (∀ uid, SameAtEachTime (listed t uid) (listed t' uid)) → ofTable t = ofTable t' := by
  constructor
  · intro t
    refine ⟨signals_ofTable t, fun uid => ?_⟩
    rw [earliest?_ofTable, funext (frequencyAt?_ofTable t uid)]
    exact stepFunction_latestBy (listed t uid)
  · intro t t' hkeys hsame
    have hlast : ∀ uid time, lastAt (listed t uid) time = lastAt (listed t' uid) time := by
      intro uid time
      unfold lastAt
      rw [hsame uid time]
    refine eq_of_valueAt ?_ fun uid time => by rw [valueAt_ofTable, valueAt_ofTable, hlast]
    rw [signals_ofTable, signals_ofTable, hkeys]
    exact List.filter_congr fun uid _ => congrArg _ (isEmpty_eq_of_lastAt (hlast uid))

/-- The points of two signals, the second without any; those of the first are in no order, and two of
    them are at the same time. -/
def sampled : Table SignalUid (List (Int × Float)) :=
  ⟨[(⟨⟨0⟩⟩, [(100, 1e6), (300, 3e6), (300, 4e6), (200, 2e6)]), (⟨⟨1⟩⟩, [])], by decide⟩

/-- The same points, rearranged. -/
def resampled : Table SignalUid (List (Int × Float)) :=
  ⟨[(⟨⟨0⟩⟩, [(300, 3e6), (200, 2e6), (300, 4e6), (100, 1e6)]), (⟨⟨1⟩⟩, [])], by decide⟩

theorem sampled_stepFunction :
    (ofTable sampled).signals = [⟨⟨0⟩⟩] ∧
    (ofTable sampled).frequencyAt? ⟨⟨0⟩⟩ 300 = some 4e6 ∧
    (ofTable sampled).frequencyAt? ⟨⟨0⟩⟩ 250 = (ofTable sampled).frequencyAt? ⟨⟨0⟩⟩ 200 ∧
    (ofTable sampled).frequencyAt? ⟨⟨0⟩⟩ 99 = none ∧
    sampled.keys = resampled.keys ∧
    (∀ uid, SameAtEachTime (listed sampled uid) (listed resampled uid)) ∧
    ofTable sampled = ofTable resampled := by
  have hsame : ∀ uid, SameAtEachTime (listed sampled uid) (listed resampled uid) := by
    intro uid time
    by_cases huid : uid = ⟨⟨0⟩⟩
    · subst huid
      by_cases h100 : time = 100
      · subst h100
        rfl
      · by_cases h200 : time = 200
        · subst h200
          rfl
        · by_cases h300 : time = 300
          · subst h300
            rfl
          · simp [listed, sampled, resampled, Table.get?, Ne.symm h100, Ne.symm h200, Ne.symm h300]
    · have hne : (uid == (⟨⟨0⟩⟩ : SignalUid)) = false := by simpa using huid
      simp [listed, sampled, resampled, Table.get?, List.lookup_cons, hne]
  obtain ⟨hsignals, hstep⟩ := ofTable_stepFunction.1 sampled
  have hstep₀ := hstep ⟨⟨0⟩⟩
  refine ⟨hsignals.trans (by decide +kernel), ?_, ?_, by decide +kernel, rfl, hsame,
    ofTable_stepFunction.2 sampled resampled rfl hsame⟩
  · exact (hstep₀.jump 300 (by decide +kernel)).trans (by decide +kernel)
  · exact hstep₀.level 200 (by decide +kernel) 250 (by decide) (by decide +kernel)

/-! ## Gathering -/

/-- Observations gathered in a table: the points of each signal, in order. -/
def gather (observations : List Observation) : Table SignalUid (List (Int × Float)) :=
  observations.foldl (fun t o =>
    t.alter o.signal fun points => points.getD [] ++ [(o.time, o.value)]) .empty

/-- One observation more is put at the end of the list of its signal. -/
theorem gather_concat (observations : List Observation) (o : Observation) :
    gather (observations ++ [o]) = (gather observations).alter o.signal fun points =>
      points.getD [] ++ [(o.time, o.value)] := by
  unfold gather
  rw [List.foldl_append]
  rfl

/-- The keys are the signals in the order of their first observation. -/
theorem keys_gather (observations : List Observation) :
    (gather observations).keys = (observations.map Observation.signal).eraseDups := by
  induction observations using List.reverseRecOn with
  | nil => rfl
  | append_singleton os o ih =>
      rw [gather_concat, List.map_append, List.map_singleton, eraseDups_concat, ← ih]
      exact Table.keys_alter _ _ _

/-- The list of a signal holds its observations in their order. -/
theorem listed_gather (observations : List Observation) (uid : SignalUid) :
    listed (gather observations) uid =
      (observations.filter fun o => o.signal = uid).map fun o => (o.time, o.value) := by
  induction observations using List.reverseRecOn with
  | nil => rfl
  | append_singleton os o ih =>
      unfold listed at ih ⊢
      rw [gather_concat, Table.get?_alter, List.filter_append, List.map_append, ← ih]
      by_cases huid : uid = o.signal
      · subst huid
        rw [if_pos rfl, List.filter_cons_of_pos (by simp)]
        rfl
      · rw [if_neg huid, List.filter_cons_of_neg (by simpa using fun h => huid h.symm)]
        exact (List.append_nil _).symm

/-- The history of observations is that of the table in which they are gathered. -/
theorem ofTable_gather (observations : List Observation) :
    ofTable (gather observations) = ofObservations observations := by
  refine eq_of_valueAt ?_ fun uid time => ?_
  · -- Every signal of the table has been observed.
    rw [signals_ofTable, signals_ofObservations, ← keys_gather]
    refine List.filter_eq_self.mpr fun uid huid => ?_
    rw [keys_gather, List.mem_eraseDups] at huid
    obtain ⟨o, ho, rfl⟩ := List.mem_map.mp huid
    rw [Bool.not_eq_true', List.isEmpty_eq_false_iff, listed_gather]
    refine List.ne_nil_of_mem (a := (o.time, o.value)) (List.mem_map_of_mem ?_)
    exact List.mem_filter.mpr ⟨ho, decide_eq_true rfl⟩
  · rw [valueAt_ofTable, valueAt_ofObservations, lastAt, listed_gather, List.filter_map,
      List.getLast?_map, Option.map_map, List.filter_filter]
    refine congrArg _ (congrArg _ (List.filter_congr fun o _ => ?_))
    show (decide (o.time = time) && decide (o.signal = uid)) = _
    rw [Bool.decide_and, Bool.and_comm]

end FrequencyHistory

end PulseTimeline
