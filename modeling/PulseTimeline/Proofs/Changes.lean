/-
  Changes of the software frequency on a signal, and which of them counts.

  1. **Specification** — what counts are the changes at the latest time at which there is one.  Two
     rules are in use: the last change by a set wins over all initial ones (`setWins`), or the last
     change of either kind wins (`lastWins`).  They differ only where an initial frequency follows a
     set (`setWins_eq_lastWins`).

  2. **Winner** — the change that wins by the first rule, and how the others at its time stand to it
     (`exists_winner`).

  3. **History** — a frequency history goes by the second rule, for every tree, signal and time
     (`frequencyAt?_eq`).
-/
import PulseTimeline.Proofs.History
import PulseTimeline.Proofs.Reached

namespace PulseTimeline

/-! ## Specification -/

/-- The value of the last change by a set, or of the last change if there is no set. -/
def setWins (cs : List Change) : Option Float :=
  ((cs.filter fun c => !c.initial).getLast?.or cs.getLast?).map Change.value

/-- The value of the last change. -/
def lastWins (cs : List Change) : Option Float := cs.getLast?.map Change.value

/-- No initial frequency follows a set. -/
def NoInitialAfterSet (cs : List Change) : Prop :=
  cs.Pairwise fun a b => a.initial = false → b.initial = false

/-- Where nothing initial follows a set, the last set is the last change. -/
theorem setWins_eq_lastWins {cs : List Change} (h : NoInitialAfterSet cs) :
    setWins cs = lastWins cs := by
  unfold setWins lastWins
  cases hlast : cs.getLast? with
  | none =>
      rw [List.getLast?_eq_none_iff] at hlast
      subst hlast
      rfl
  | some c =>
      obtain ⟨front, rfl⟩ := List.getLast?_eq_some_iff.mp hlast
      obtain ⟨_, _, hcross⟩ := List.pairwise_append.mp h
      cases hc : c.initial with
      | false =>
          rw [List.filter_append, List.filter_cons_of_pos (by simp [hc]), List.filter_nil,
            List.getLast?_concat, Option.some_or]
      | true =>
          -- Then there is no set at all.
          have hnone : ((front ++ [c]).filter fun c => !c.initial) = [] := by
            refine List.filter_eq_nil_iff.mpr fun a ha => ?_
            rcases List.mem_append.mp ha with ha | ha
            · intro hset
              have hfalse := hcross a ha c List.mem_cons_self (by simpa using hset)
              rw [hc] at hfalse
              cases hfalse
            · rw [List.mem_singleton.mp ha, hc]
              decide
          rw [hnone]
          rfl

example : setWins [⟨0, false, 2e6⟩, ⟨0, true, 1e6⟩] = some 2e6 ∧
    lastWins [⟨0, false, 2e6⟩, ⟨0, true, 1e6⟩] = some 1e6 := by decide +kernel

/-! ## The winning change -/

theorem exists_split_of_getLast? {α : Type} {p : α → Bool} {l : List α} {a : α}
    (h : (l.filter p).getLast? = some a) :
    ∃ pre post, l = pre ++ a :: post ∧ p a = true ∧ ∀ b ∈ post, p b = false := by
  obtain ⟨front, hfront⟩ := List.getLast?_eq_some_iff.mp h
  obtain ⟨pre, rest, rfl, _, hrest⟩ := List.filter_eq_append_iff.mp hfront
  obtain ⟨skipped, post, rfl, _, ha, hpost⟩ := List.filter_eq_cons_iff.mp hrest
  refine ⟨pre ++ skipped, post, by simp, ha, fun b hb => ?_⟩
  have hnot := List.filter_eq_nil_iff.mp hpost b hb
  simpa using hnot

/-- The winner among the changes at time `s`: after it there are at most initial changes, and only
    if it is a set; and a set at time `s` can only lose against a set. -/
theorem exists_winner {cs : List Change} {s : Int} (h : s ∈ cs.map Change.time) :
    ∃ pre c post, cs = pre ++ c :: post ∧ c.time = s ∧
      setWins (cs.filter fun a => a.time = s) = some c.value ∧
      (∀ a ∈ post, a.time = s → a.initial = true ∧ c.initial = false) ∧
      ∀ a ∈ cs, a.time = s → a.initial = false → c.initial = false := by
  unfold setWins
  rw [List.filter_filter]
  cases hset : (cs.filter fun a => !a.initial && decide (a.time = s)).getLast? with
  | some c =>
      obtain ⟨pre, post, hcs, hc, hpost⟩ := exists_split_of_getLast? hset
      have hc' : c.initial = false ∧ c.time = s := by simpa using hc
      refine ⟨pre, c, post, hcs, hc'.2, rfl, fun a ha htime => ?_, fun _ _ _ _ => hc'.1⟩
      have hnot := hpost a ha
      simp only [htime, decide_true, Bool.and_true, Bool.not_eq_false'] at hnot
      exact ⟨hnot, hc'.1⟩
  | none =>
      rw [List.getLast?_eq_none_iff, List.filter_eq_nil_iff] at hset
      have hinitial : ∀ a ∈ cs, a.time = s → a.initial = true := by
        intro a ha htime
        have hnot := hset a ha
        simpa [htime] using hnot
      cases hlast : (cs.filter fun a => a.time = s).getLast? with
      | none =>
          rw [List.getLast?_eq_none_iff, List.filter_eq_nil_iff] at hlast
          obtain ⟨a, ha, htime⟩ := List.mem_map.mp h
          exact absurd (by simpa using htime) (hlast a ha)
      | some c =>
          obtain ⟨pre, post, hcs, hc, hpost⟩ := exists_split_of_getLast? hlast
          have hc' : c.time = s := by simpa using hc
          refine ⟨pre, c, post, hcs, hc', rfl, fun a ha htime => ?_, fun a ha htime hset => ?_⟩
          · have hnot := hpost a ha
            simp [htime] at hnot
          · rw [hinitial a ha htime] at hset
            cases hset

/-! ## History -/

theorem getLast?_flatMap_congr {α β γ δ : Type} {f : α → List β} {g : α → List γ} {v : β → δ}
    {w : γ → δ} {l : List α} (h : ∀ a ∈ l, (f a).getLast?.map v = (g a).getLast?.map w) :
    (l.flatMap f).getLast?.map v = (l.flatMap g).getLast?.map w := by
  induction l with
  | nil => rfl
  | cons a l ih =>
      have ha := h a List.mem_cons_self
      have hl := ih fun b hb => h b (List.mem_cons_of_mem _ hb)
      rw [List.flatMap_cons, List.flatMap_cons, List.getLast?_append, List.getLast?_append,
        Option.map_or, Option.map_or, ha, hl]

/-- What one setting lets be observed on a signal at a time. -/
theorem observed_setting (uid : SignalUid) (time s : Int) (setting : FrequencySetting) :
    ((setting.oscillator.signals.map fun u => Observation.mk u time setting.value).filter fun o =>
      o.signal = uid ∧ o.time = s).getLast?.map Observation.value =
        if uid ∈ setting.oscillator.signals ∧ time = s then some setting.value else none := by
  cases hlast : ((setting.oscillator.signals.map fun u => Observation.mk u time
      setting.value).filter fun o => o.signal = uid ∧ o.time = s).getLast? with
  | none =>
      rw [List.getLast?_eq_none_iff, List.filter_eq_nil_iff] at hlast
      rw [if_neg]
      · rfl
      · rintro ⟨hmem, htime⟩
        refine hlast ⟨uid, time, setting.value⟩ (List.mem_map.mpr ⟨uid, hmem, rfl⟩) ?_
        simpa using htime
  | some o =>
      obtain ⟨hmem, hmatch⟩ := List.mem_filter.mp (List.mem_of_getLast? hlast)
      obtain ⟨u, hu, rfl⟩ := List.mem_map.mp hmem
      have hmatch' : u = uid ∧ time = s := by simpa using hmatch
      rw [if_pos ⟨hmatch'.1 ▸ hu, hmatch'.2⟩]
      rfl

/-- What the settings of a node let be observed, and the changes they stand for. -/
theorem observed_settings (uid : SignalUid) (time s : Int) (initial : Bool)
    (settings : List FrequencySetting) :
    ((FrequencySetting.observations time settings).filter fun o =>
      o.signal = uid ∧ o.time = s).getLast?.map Observation.value =
        (((settings.filter (·.tunes uid)).map fun st => Change.mk time initial st.value).filter
          fun c => c.time = s).getLast?.map Change.value := by
  unfold FrequencySetting.observations
  induction settings with
  | nil => rfl
  | cons st rest ih =>
      cases hhw : st.oscillator.isHardware with
      | true =>
          have htunes : st.tunes uid = false := by simp [FrequencySetting.tunes, hhw]
          rw [List.filter_cons_of_neg (by simp [hhw]), List.filter_cons_of_neg (by simp [htunes])]
          exact ih
      | false =>
          rw [List.filter_cons_of_pos (by simp [hhw]), List.flatMap_cons, List.filter_append,
            List.getLast?_append, Option.map_or, ih, observed_setting]
          by_cases hmem : uid ∈ st.oscillator.signals
          · have htunes : st.tunes uid = true := by simp [FrequencySetting.tunes, hhw, hmem]
            rw [List.filter_cons_of_pos htunes, List.map_cons]
            by_cases htime : time = s
            · rw [List.filter_cons_of_pos (by simpa using htime), List.getLast?_cons,
                if_pos ⟨hmem, htime⟩]
              cases (((rest.filter (·.tunes uid)).map fun st =>
                Change.mk time initial st.value).filter fun c => c.time = s).getLast? <;> rfl
            · rw [List.filter_cons_of_neg (by simpa using htime), if_neg fun h => htime h.2,
                Option.or_none]
          · have htunes : st.tunes uid = false := by simp [FrequencySetting.tunes, hmem]
            rw [List.filter_cons_of_neg (by simp [htunes]), if_neg fun h => hmem h.1,
              Option.or_none]

/-- The observations of an experiment on a signal at a time end with the value of the last
    change. -/
theorem observed_eq_lastWins (x : Experiment) (uid : SignalUid) (s : Int) :
    ((x.reached.flatMap fun n => FrequencySetting.observations n.1 n.2.settings).filter fun o =>
      o.signal = uid ∧ o.time = s).getLast?.map Observation.value =
        lastWins ((x.changes uid).filter fun c => c.time = s) := by
  unfold lastWins Experiment.changes
  rw [List.filter_flatMap, List.filter_flatMap]
  exact getLast?_flatMap_congr fun n _ => observed_settings uid n.1 s n.2.isInitial n.2.settings

theorem mem_times_iff (x : Experiment) (uid : SignalUid) (s : Int) :
    s ∈ FrequencyHistory.times
      (x.reached.flatMap fun n => FrequencySetting.observations n.1 n.2.settings) uid ↔
        s ∈ (x.changes uid).map Change.time := by
  unfold FrequencyHistory.times Experiment.changes FrequencySetting.observations
    FrequencySetting.tunes
  simp only [List.mem_map, List.mem_filter, List.mem_flatMap, decide_eq_true_eq, Bool.and_eq_true,
    Bool.not_eq_true']
  constructor
  · rintro ⟨o, ⟨⟨n, hn, st, ⟨hst, hhw⟩, u, hu, rfl⟩, rfl⟩, rfl⟩
    exact ⟨⟨n.1, n.2.isInitial, st.value⟩, ⟨n, hn, st, ⟨hst, hhw, hu⟩, rfl⟩, rfl⟩
  · rintro ⟨c, ⟨n, hn, st, ⟨hst, hhw, hu⟩, rfl⟩, rfl⟩
    exact ⟨⟨uid, n.1, st.value⟩, ⟨⟨n, hn, st, ⟨hst, hhw⟩, uid, hu, rfl⟩, rfl⟩, rfl⟩

/-- The history of an experiment answers with the last change at the latest time of a change. -/
theorem frequencyAt?_eq (x : Experiment) (uid : SignalUid) (t : Int) :
    x.frequencyHistory.frequencyAt? uid t =
      (latestBy t ((x.changes uid).map Change.time)).bind fun s =>
        lastWins ((x.changes uid).filter fun c => c.time = s) := by
  rw [Experiment.frequencyHistory_eq, FrequencyHistory.frequencyAt?_ofObservations,
    latestBy_congr (mem_times_iff x uid)]
  simp only [observed_eq_lastWins]

end PulseTimeline
