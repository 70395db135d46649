/-
  The frequency before a pulse, in terms of the tree.

  1. **Hypotheses** — oscillators live where their signals say (`KindsAgree`), and ticks do not
     collapse in seconds (`TicksIncrease`).

  2. **Changes** — the flattened experiment changes the frequency of a signal in software when and
     as the tree does (`changes_flatten`).

  3. **Frequency before a pulse** — the winning change at the latest time belongs to the greatest
     event, in the order of the frequency pass, that sets a frequency on the signal and is not later
     than the pulse (`frequencyBefore_eq`).  Ids settle ties in favour of the change that comes last
     in the tree.
-/
import PulseTimeline.Proofs.Changes
import PulseTimeline.Proofs.FrequencyPass

namespace PulseTimeline

/-! ## Hypotheses -/

namespace Experiment

/-- In every reached frequency setting, the oscillator is of the same kind as the signals that it
    lists. -/
def KindsAgree (x : Experiment) : Prop :=
  ∀ n ∈ x.reached, ∀ st ∈ n.2.settings, ∀ uid ∈ st.oscillator.signals,
    x.signalMap.isHardware uid = .ok st.oscillator.isHardware

/-- Later starts of reached nodes are later in seconds. -/
def TicksIncrease (x : Experiment) (tick : Float) : Prop :=
  ∀ a ∈ x.reached, ∀ b ∈ x.reached, a.1 < b.1 →
    (Seconds.ofTicks tick a.1).key < (Seconds.ofTicks tick b.1).key

instance (x : Experiment) : Decidable x.KindsAgree :=
  inferInstanceAs (Decidable (∀ n ∈ x.reached, ∀ st ∈ n.2.settings, ∀ uid ∈ st.oscillator.signals,
    x.signalMap.isHardware uid = .ok st.oscillator.isHardware))

instance (x : Experiment) (tick : Float) : Decidable (x.TicksIncrease tick) :=
  inferInstanceAs (Decidable (∀ a ∈ x.reached, ∀ b ∈ x.reached, a.1 < b.1 →
    (Seconds.ofTicks tick a.1).key < (Seconds.ofTicks tick b.1).key))

end Experiment

/-! ## Changes in the tree and in the list -/

/-- The change on a signal that a cue stands for: whether it is initial, and its value. -/
def Cue.changeOn? (uid : SignalUid) : Cue → Option (Bool × Float)
  | .change initial signals value => if uid ∈ signals then some (initial, value) else none
  | .sounding .. => none

/-- The change on a signal that an event stands for: its instant, whether it is initial, and its
    value. -/
def Event.changeOn? (uid : SignalUid) (e : Event) : Option (Seconds × Bool × Float) :=
  e.cue?.bind fun c => (c.2.changeOn? uid).map fun r => (c.1, r)

/-- A change in seconds. -/
def Change.stamped (tick : Float) (c : Change) : Seconds × Bool × Float :=
  (.ofTicks tick c.time, c.initial, c.value)

/-- An event stands for a change if it sets a frequency. -/
theorem changeOn?_eq (uid : SignalUid) (e : Event) : e.changeOn? uid =
    (e.kind.setsOn uid).map fun value => (e.time, !e.kind.isStart, value) := by
  obtain ⟨id, time, kind⟩ := e
  have hsettings : ∀ (initial : Bool) (update : FrequencyEvent),
      ((if uid ∈ update.signals then some (initial, update.value) else none).map fun r =>
        (time, r)) =
      (if uid ∈ update.signals then some update.value else none).map fun value =>
        (time, initial, value) := by
    intro initial update
    split <;> rfl
  cases kind with
  | setFrequencyStart update => exact hsettings false update
  | initialFrequency update => exact hsettings true update
  | pulseStart activity pulse => cases activity <;> rfl
  | _ => rfl

theorem setsOn_of_changeOn? {uid : SignalUid} {e : Event} {r : Seconds × Bool × Float}
    (h : e.changeOn? uid = some r) : e.kind.setsOn uid = some r.2.2 ∧ e.time = r.1 ∧
      Frequency.rank e.type = some (if r.2.1 then -30 else -15) ∧ e.kind.isStart = !r.2.1 := by
  rw [changeOn?_eq, Option.map_eq_some_iff] at h
  obtain ⟨value, hset, rfl⟩ := h
  refine ⟨hset, rfl, ?_, (Bool.not_not _).symm⟩
  obtain ⟨id, time, kind⟩ := e
  cases kind <;> first | rfl | cases hset

/-- Settings whose oscillators are in software change a signal as their cues do. -/
theorem changes_settings {uid : SignalUid} {settings : List FrequencySetting} (tick : Float)
    (time : Int) (initial : Bool)
    (hsoft : ∀ st ∈ settings, uid ∈ st.oscillator.signals → st.oscillator.isHardware = false) :
    ((settings.map fun st => Cue.change initial st.oscillator.signals st.value).map fun c =>
      (time, c)).filterMap (fun c => (c.2.changeOn? uid).map fun r =>
        (Seconds.ofTicks tick c.1, r)) =
      ((settings.filter (·.tunes uid)).map fun st => Change.mk time initial st.value).map
        (Change.stamped tick) := by
  induction settings with
  | nil => rfl
  | cons st rest ih =>
      have hrest := ih fun s hs => hsoft s (List.mem_cons_of_mem _ hs)
      by_cases hmem : uid ∈ st.oscillator.signals
      · have htunes : st.tunes uid = true := by
          simp [FrequencySetting.tunes, hsoft st List.mem_cons_self hmem, hmem]
        rw [List.filter_cons_of_pos htunes, List.map_cons, List.map_cons, List.map_cons,
          List.map_cons, ← hrest]
        simp only [List.filterMap_cons, Cue.changeOn?, if_pos hmem, Option.map_some]
        rfl
      · have htunes : st.tunes uid = false := by simp [FrequencySetting.tunes, hmem]
        rw [List.filter_cons_of_neg (by simp [htunes]), List.map_cons, List.map_cons, ← hrest]
        simp only [List.filterMap_cons, Cue.changeOn?, if_neg hmem, Option.map_none]

section Flattened

variable {x : Experiment} {tick : Float} {o : LoweringOptions} {events : List Event}
  {uid : SignalUid}

/-- The flattened experiment changes the frequency of a signal in software when and as its tree
    does. -/
theorem changes_flatten (hexpand : o.expandLoops = true) (h : x.flatten tick o = .ok events)
    (hkinds : x.KindsAgree) (hsoft : x.signalMap.isHardware uid = .ok false) :
    events.filterMap (Event.changeOn? uid) = (x.changes uid).map (Change.stamped tick) := by
  have hcues : events.filterMap (Event.changeOn? uid) =
      (events.filterMap Event.cue?).filterMap fun c =>
        (c.2.changeOn? uid).map fun r => (c.1, r) := by
    rw [List.filterMap_filterMap]
    rfl
  rw [hcues, cues_flatten hexpand h, List.filterMap_map]
  unfold cuesOf Experiment.changes
  rw [List.filterMap_flatMap, List.map_flatMap]
  refine List.flatMap_congr fun n hn => ?_
  obtain ⟨start, kind⟩ := n
  have hsettings : ∀ st ∈ kind.settings, uid ∈ st.oscillator.signals →
      st.oscillator.isHardware = false := by
    intro st hst hmem
    have hkind := hkinds _ hn st hst uid hmem
    rw [hsoft, Except.ok.injEq] at hkind
    exact hkind.symm
  cases kind with
  | setFrequency owner settings index => exact changes_settings tick start false hsettings
  | initialFrequency settings => exact changes_settings tick start true hsettings
  | _ => rfl

/-- Nothing changes the software frequency of a signal in hardware. -/
theorem changes_of_hardware (hkinds : x.KindsAgree)
    (hhw : x.signalMap.isHardware uid = .ok true) : x.changes uid = [] := by
  unfold Experiment.changes
  rw [List.flatMap_eq_nil_iff]
  intro n hn
  rw [List.map_eq_nil_iff, List.filter_eq_nil_iff]
  intro st hst htunes
  simp only [FrequencySetting.tunes, Bool.and_eq_true, Bool.not_eq_true', decide_eq_true_eq]
    at htunes
  have hkind := hkinds n hn st hst uid htunes.2
  rw [hhw, htunes.1, Except.ok.injEq] at hkind
  cases hkind

/-! ## The frequency before a pulse -/

theorem reached_of_change {c : Change} (hc : c ∈ x.changes uid) :
    c.time ∈ x.reached.map Prod.fst := by
  unfold Experiment.changes at hc
  obtain ⟨n, hn, hc⟩ := List.mem_flatMap.mp hc
  obtain ⟨st, _, rfl⟩ := List.mem_map.mp hc
  exact List.mem_map_of_mem hn

theorem key_le_iff (hticks : x.TicksIncrease tick) {a b : Int} (ha : a ∈ x.reached.map Prod.fst)
    (hb : b ∈ x.reached.map Prod.fst) :
    (Seconds.ofTicks tick a).key ≤ (Seconds.ofTicks tick b).key ↔ a ≤ b := by
  obtain ⟨m, hm, rfl⟩ := List.mem_map.mp ha
  obtain ⟨n, hn, rfl⟩ := List.mem_map.mp hb
  have hab := hticks m hm n hn
  have hba := hticks n hn m hm
  constructor
  · intro h
    by_contra hnot
    have := hba (by omega)
    omega
  · intro h
    rcases Int.lt_or_eq_of_le h with hlt | heq
    · have := hab hlt
      omega
    · rw [heq]

/-- An event that sets a frequency stands for a change. -/
theorem exists_change {es : List Event} {cs : List Change}
    (h : es.filterMap (Event.changeOn? uid) = cs.map (Change.stamped tick)) {g : Event}
    (hg : g ∈ es) (hset : (g.kind.setsOn uid).isSome = true) :
    ∃ c ∈ cs, g.changeOn? uid = some (c.stamped tick) := by
  obtain ⟨value, hvalue⟩ := Option.isSome_iff_exists.mp hset
  have hr := changeOn?_eq uid g
  rw [hvalue, Option.map_some] at hr
  have hmem := List.mem_filterMap.mpr ⟨g, hg, hr⟩
  rw [h] at hmem
  obtain ⟨c, hc, hstamped⟩ := List.mem_map.mp hmem
  exact ⟨c, hc, hr.trans (congrArg some hstamped.symm)⟩

/-- A change comes before another one, in the order of the pass, if it is earlier; at the same time,
    if it is initial and the other one is not, or if both are of a kind and ids say so. -/
theorem place_le_of_changes (hticks : x.TicksIncrease tick) {b c : Change} {f g : Event}
    (hb : b ∈ x.changes uid) (hc : c ∈ x.changes uid)
    (hgb : g.changeOn? uid = some (b.stamped tick)) (hfc : f.changeOn? uid = some (c.stamped tick))
    (hbc : b.time ≤ c.time)
    (htie : b.time = c.time → (b.initial = true ∧ c.initial = false) ∨
      (b.initial = c.initial ∧ g.id ≤ f.id)) :
    g.place Frequency.rank ≤ f.place Frequency.rank := by
  obtain ⟨_, hgtime, hgrank, _⟩ := setsOn_of_changeOn? hgb
  obtain ⟨_, hftime, hfrank, _⟩ := setsOn_of_changeOn? hfc
  have hle := key_le_iff hticks (reached_of_change hc) (reached_of_change hb)
  rw [Event.place_le_iff, hgtime, hftime, hgrank, hfrank, Option.getD_some, Option.getD_some]
  unfold Change.stamped
  rcases Int.lt_or_eq_of_le hbc with hlt | heq
  · left
    show (Seconds.ofTicks tick b.time).key < (Seconds.ofTicks tick c.time).key
    omega
  · right
    rcases htie heq with ⟨hbi, hci⟩ | ⟨hbi, hid⟩
    · refine ⟨by rw [heq], .inl ?_⟩
      rw [hbi, hci]
      show (-30 : Int) < -15
      decide
    · exact ⟨by rw [heq], .inr ⟨by rw [hbi], hid⟩⟩

/-- The event of the change that wins at time `s`: of all events that set a frequency at that time,
    none comes after it in the order of the pass. -/
theorem exists_winning_event (hinc : IdsIncrease events)
    (hchanges : events.filterMap (Event.changeOn? uid) = (x.changes uid).map (Change.stamped tick))
    {s : Int} (hs : s ∈ (x.changes uid).map Change.time) :
    ∃ f ∈ events, ∃ c ∈ x.changes uid, f.changeOn? uid = some (c.stamped tick) ∧ c.time = s ∧
      setWins ((x.changes uid).filter fun a => a.time = s) = some c.value ∧
      ∀ g ∈ events, (g.kind.setsOn uid).isSome = true →
        ∃ b ∈ x.changes uid, g.changeOn? uid = some (b.stamped tick) ∧
          (b.time = c.time → (b.initial = true ∧ c.initial = false) ∨
            (b.initial = c.initial ∧ g.id ≤ f.id)) := by
  obtain ⟨pre, c, post, hcs, rfl, hwins, hpost, hset⟩ := exists_winner hs
  -- The list falls apart at the event `f` of the winner.
  rw [hcs, List.map_append, List.map_cons] at hchanges
  obtain ⟨front, rest, rfl, hfront, hrest⟩ := List.filterMap_eq_append_iff.mp hchanges
  obtain ⟨idle, f, back, rfl, hidle, hf, hback⟩ := List.filterMap_eq_cons_iff.mp hrest
  have hpre : ∀ b ∈ pre, b ∈ x.changes uid := by
    intro b hb
    rw [hcs]
    exact List.mem_append_left _ hb
  have hpost' : ∀ b ∈ c :: post, b ∈ x.changes uid := by
    intro b hb
    rw [hcs]
    exact List.mem_append_right _ hb
  have hc := hpost' c List.mem_cons_self
  refine ⟨f, by simp, c, hc, hf, rfl, hwins, fun g hg hgset => ?_⟩
  rcases List.mem_append.mp hg with hg | hg
  · -- In front of `f` ids are lower, and a set means that the winner is a set.
    obtain ⟨b, hb, hgb⟩ := exists_change hfront hg hgset
    refine ⟨b, hpre b hb, hgb, fun htie => ?_⟩
    have hlt : b.initial = c.initial → g.id < f.id := by
      intro hbi
      refine (List.pairwise_append.mp hinc).2.2 g hg f (by simp) ?_
      rw [(setsOn_of_changeOn? hgb).2.2.2, (setsOn_of_changeOn? hf).2.2.2]
      exact congrArg not hbi
    cases hbi : b.initial with
    | false =>
        have hci : c.initial = false := hset b (hpre b hb) htie hbi
        exact .inr ⟨hci.symm, le_of_lt (hlt (hbi.trans hci.symm))⟩
    | true =>
        cases hci : c.initial with
        | false => exact .inl ⟨rfl, rfl⟩
        | true => exact .inr ⟨rfl, le_of_lt (hlt (hbi.trans hci.symm))⟩
  · rcases List.mem_append.mp hg with hg | hg
    · have hnone := changeOn?_eq uid g
      rw [hidle g hg, eq_comm, Option.map_eq_none_iff] at hnone
      rw [hnone] at hgset
      cases hgset
    · rcases List.mem_cons.mp hg with rfl | hg
      · exact ⟨c, hc, hf, fun _ => .inr ⟨rfl, le_refl _⟩⟩
      · -- Behind `f` there are only initial changes, and only if the winner is a set.
        obtain ⟨b, hb, hgb⟩ := exists_change hback hg hgset
        exact ⟨b, hpost' b (List.mem_cons_of_mem _ hb), hgb, fun htie => .inl (hpost b hb htie)⟩

/-- The frequency before a play or an acquisition is the one that wins at the latest time of a
    change. -/
theorem frequencyBefore_eq (hids : (events.map Event.id).Nodup) (hinc : IdsIncrease events)
    (hticks : x.TicksIncrease tick)
    (hchanges : events.filterMap (Event.changeOn? uid) = (x.changes uid).map (Change.stamped tick))
    {e : Event} (he : Frequency.rank e.type = some 0) {t : Int} (ht : t ∈ x.reached.map Prod.fst)
    (htime : e.time = .ofTicks tick t) :
    Frequency.frequencyBefore events uid e =
      (latestBy t ((x.changes uid).map Change.time)).bind fun s =>
        setWins ((x.changes uid).filter fun c => c.time = s) := by
  -- An event is not later than the pulse if and only if its change is not.
  have hnotLater : ∀ (g : Event) (b : Change), b ∈ x.changes uid →
      g.changeOn? uid = some (b.stamped tick) → (g.time.key ≤ e.time.key ↔ b.time ≤ t) := by
    intro g b hb hgb
    rw [(setsOn_of_changeOn? hgb).2.1, htime]
    exact key_le_iff hticks (reached_of_change hb) ht
  cases hlatest : latestBy t ((x.changes uid).map Change.time) with
  | none =>
      rw [latestBy_eq_none] at hlatest
      refine Frequency.frequencyBefore_eq_none he fun g hg hset hle => ?_
      obtain ⟨b, hb, hgb⟩ := exists_change hchanges hg hset
      have hlater := hlatest b.time (List.mem_map_of_mem hb)
      have hearlier := (hnotLater g b hb hgb).mp hle
      omega
  | some s =>
      rw [latestBy_eq_some] at hlatest
      obtain ⟨hs, hst, hmax⟩ := hlatest
      obtain ⟨f, hf, c, hc, hfc, rfl, hwins, hlast⟩ := exists_winning_event hinc hchanges hs
      rw [Option.bind_some, hwins]
      refine Frequency.frequencyBefore_eq_some hids he hf (setsOn_of_changeOn? hfc).1
        ((hnotLater f c hc hfc).mpr hst) fun g hg hset hle => ?_
      obtain ⟨b, hb, hgb, htie⟩ := hlast g hg hset
      have hbc := hmax b.time (List.mem_map_of_mem hb) ((hnotLater g b hb hgb).mp hle)
      exact place_le_of_changes hticks hb hc hgb hfc hbc htie

end Flattened

end PulseTimeline
