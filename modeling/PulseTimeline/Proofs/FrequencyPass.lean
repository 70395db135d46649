/-
  The frequency pass, event by event.

  1. **Step** — `Frequency.quietStep` is a step of the pass without its log.  It is a change of the
     frequencies in effect (`apply_ok`), a pulse annotated with the one on its signal, or nothing
     at all (`quietStep_cases`).

  2. **One signal** — the pass treats the events that concern a signal as if there were no others
     (`separates_frequency`), and does not look at ids beyond their order
     (`quietStep_anonymous`).

  3. **Frequencies in effect** — after a visit the frequency on a software signal is the last one
     that the visited events set on it (`visit_current`).

  4. **Annotation** — hence a play or an acquisition carries the frequency that the events before
     it set (`written_spec`).  It is that of the greatest event, in the order of the pass, that sets
     one on its signal and is not later (`frequencyBefore_eq_some`).
-/
import PulseTimeline.Proofs.HandledIds
import PulseTimeline.Proofs.SweepLaws
import PulseTimeline.Resolution.Frequency

namespace PulseTimeline

/-- The frequency update of an event, if it is one. -/
def EventKind.frequency? : EventKind → Option FrequencyEvent
  | .setFrequencyStart update => some update
  | .initialFrequency update => some update
  | _ => none

/-- The frequency that an event sets on a signal. -/
def EventKind.setsOn (uid : SignalUid) (k : EventKind) : Option Float :=
  k.frequency?.bind fun update => if uid ∈ update.signals then some update.value else none

/-- Whether an event matters for the pulses on a signal: it is one of them, sets a frequency on the
    signal, or resets all phases. -/
def EventKind.concerns (uid : SignalUid) : EventKind → Bool
  | .pulseStart _ pulse => pulse.signal = uid
  | .setFrequencyStart update => uid ∈ update.signals
  | .initialFrequency update => uid ∈ update.signals
  | .resetSoftwarePhase _ => true
  | _ => false

/-- What starts to occupy a signal, if anything does. -/
def EventKind.pulse? : EventKind → Option (Activity × PulseEvent)
  | .pulseStart activity pulse => some (activity, pulse)
  | _ => none

theorem EventKind.pulse?_eq_some {k : EventKind} {p : Activity × PulseEvent} :
    k.pulse? = some p ↔ k = .pulseStart p.1 p.2 := by
  cases k <;> simp [EventKind.pulse?, Prod.ext_iff]

/-- The event with another pulse. -/
def Event.withPulse (e : Event) (activity : Activity) (pulse : PulseEvent) : Event :=
  { e with kind := .pulseStart activity pulse }

namespace Frequency

/-! ## The step -/

/-- One step of the pass without its log. -/
def quietStep (m : SignalMap) (current : Current) (e : Event) :
    Except TimelineError (Current × Event) :=
  (step m current e).outcome

/-- The events with the frequencies written on the pulses, nothing removed yet. -/
def written (m : SignalMap) (events : List Event) : Except TimelineError (List Event) :=
  sweep rank (quietStep m) .empty events

/-- The pass writes frequencies, then removes what is used up. -/
theorem outcome_resolve (m : SignalMap) (events : List Event) :
    (resolve m events).outcome =
      written m events >>= fun es => handledEvents m es >>= fun ids =>
        .ok (removeEvents ids es) := by
  simp only [resolve, Logged.outcome_bind, outcome_sweep]
  rfl

theorem outcome_apply_cons (m : SignalMap) (value : Float) (uid : SignalUid)
    (uids : List SignalUid) (current : Current) :
    (apply m value (uid :: uids) current).outcome =
      m.signal uid >>= fun s =>
        (apply m value uids
          (if s.isHardware then current else current.insert uid value)).outcome := by
  simp only [apply, Logged.outcome_bind]
  show (m.signal uid >>= _) = _
  refine congrArg _ (funext fun s => ?_)
  split <;> rfl

/-- A frequency takes effect on the listed signals in software, and all listed signals are known. -/
theorem apply_ok {m : SignalMap} {value : Float} {uids : List SignalUid} {current after : Current}
    (h : (apply m value uids current).outcome = .ok after) :
    (∀ uid ∈ uids, ∃ b, m.isHardware uid = .ok b) ∧
      ∀ q, after.get? q =
        if q ∈ uids ∧ m.isHardware q = .ok false then some value else current.get? q := by
  induction uids generalizing current with
  | nil =>
      cases h
      simp
  | cons uid uids ih =>
      rw [outcome_apply_cons] at h
      obtain ⟨s, hs, h⟩ := bind_ok h
      have hknown : m.isHardware uid = .ok s.isHardware :=
        SignalMap.isHardware_ok.mpr ⟨s, SignalMap.signal_ok.mp hs, rfl⟩
      obtain ⟨hrest, hget⟩ := ih h
      refine ⟨?_, fun q => ?_⟩
      · intro u hu
        rcases List.mem_cons.mp hu with rfl | hu
        · exact ⟨_, hknown⟩
        · exact hrest u hu
      · rw [hget q]
        by_cases hq : q = uid
        · subst hq
          cases hhw : s.isHardware with
          | true => simp [hknown, hhw]
          | false => simp [hknown, hhw, Table.get?_insert]
        · cases hhw : s.isHardware with
          | true => simp [hq]
          | false => simp [hq, Table.get?_insert]

/-- Whether a frequency can take effect does not depend on those in effect. -/
theorem apply_of_known {m : SignalMap} {uids : List SignalUid} (value : Float) (current : Current)
    (h : ∀ uid ∈ uids, ∃ b, m.isHardware uid = .ok b) :
    ∃ after, (apply m value uids current).outcome = .ok after := by
  induction uids generalizing current with
  | nil => exact ⟨current, rfl⟩
  | cons uid uids ih =>
      obtain ⟨b, hb⟩ := h uid List.mem_cons_self
      obtain ⟨s, hs, _⟩ := SignalMap.isHardware_ok.mp hb
      rw [outcome_apply_cons, SignalMap.signal_ok.mpr hs]
      exact ih _ fun u hu => h u (List.mem_cons_of_mem _ hu)

/-- The pulse as the pass leaves it: on a signal in software with the frequency in effect there, if
    there is one. -/
def annotated (hardware : Bool) (current : Current) (pulse : PulseEvent) : PulseEvent :=
  if hardware then pulse
  else
    { pulse with
      oscillatorFrequency := (current.get? pulse.signal).or pulse.oscillatorFrequency }

@[simp] theorem signal_annotated (hardware : Bool) (current : Current) (pulse : PulseEvent) :
    (annotated hardware current pulse).signal = pulse.signal := by
  cases hardware <;> rfl

theorem annotate_eq (m : SignalMap) (current : Current) (pulse : PulseEvent) :
    annotate m current pulse =
      m.isHardware pulse.signal >>= fun hardware => .ok (annotated hardware current pulse) := by
  rw [annotate]
  refine congrArg _ (funext fun hardware => ?_)
  cases hardware with
  | true => rfl
  | false =>
      simp only [Bool.false_eq_true, if_false, annotated]
      cases current.get? pulse.signal <;> rfl

/-- An update changes what is current and is left as it is. -/
theorem quietStep_frequency {e : Event} {update : FrequencyEvent}
    (h : e.kind.frequency? = some update) (m : SignalMap) (current : Current) :
    quietStep m current e =
      (apply m update.value update.signals current).outcome >>= fun after => .ok (after, e) := by
  obtain ⟨id, time, kind⟩ := e
  cases kind <;> cases h <;> (simp only [quietStep, step, Logged.outcome_bind]; rfl)

/-- A pulse is annotated and changes nothing. -/
theorem quietStep_pulse {e : Event} {activity : Activity} {pulse : PulseEvent}
    (h : e.kind = .pulseStart activity pulse) (m : SignalMap) (current : Current) :
    quietStep m current e =
      m.isHardware pulse.signal >>= fun hardware =>
        .ok (current, e.withPulse activity (annotated hardware current pulse)) := by
  obtain ⟨id, time, kind⟩ := e
  subst h
  simp only [quietStep, step, Logged.outcome_bind, Logged.outcome_ofExcept, annotate_eq]
  cases m.isHardware pulse.signal <;> rfl

/-- Other events pass through. -/
theorem quietStep_idle {e : Event} (hf : e.kind.frequency? = none) (hp : e.kind.pulse? = none)
    (m : SignalMap) (current : Current) : quietStep m current e = .ok (current, e) := by
  obtain ⟨id, time, kind⟩ := e
  cases kind <;> first | rfl | simp [EventKind.frequency?, EventKind.pulse?] at hf hp

/-- What a step can be. -/
theorem quietStep_cases {m : SignalMap} {current after : Current} {e e' : Event}
    (h : quietStep m current e = .ok (after, e')) :
    (∃ update, e.kind.frequency? = some update ∧ e' = e ∧
      (apply m update.value update.signals current).outcome = .ok after) ∨
    (∃ activity pulse hardware, e.kind = .pulseStart activity pulse ∧ after = current ∧
      m.isHardware pulse.signal = .ok hardware ∧
      e' = e.withPulse activity (annotated hardware current pulse)) ∨
    (e.kind.frequency? = none ∧ e.kind.pulse? = none ∧ after = current ∧ e' = e) := by
  cases hf : e.kind.frequency? with
  | some update =>
      rw [quietStep_frequency hf] at h
      obtain ⟨a, ha, h⟩ := bind_ok h
      cases h
      exact .inl ⟨update, rfl, rfl, ha⟩
  | none =>
      cases hp : e.kind.pulse? with
      | some p =>
          obtain ⟨activity, pulse⟩ := p
          have hk := EventKind.pulse?_eq_some.mp hp
          rw [quietStep_pulse hk] at h
          obtain ⟨hardware, hhw, h⟩ := bind_ok h
          cases h
          exact .inr (.inl ⟨activity, pulse, hardware, hk, rfl, hhw, rfl⟩)
      | none =>
          rw [quietStep_idle hf hp] at h
          cases h
          exact .inr (.inr ⟨rfl, rfl, rfl, rfl⟩)

theorem keepsIds_quietStep (m : SignalMap) : KeepsIds (quietStep m) := by
  intro current e after e' h
  rcases quietStep_cases h with ⟨_, _, rfl, _⟩ | ⟨_, _, _, _, _, _, rfl⟩ | ⟨_, _, _, rfl⟩ <;> rfl

/-- A step sees no ids. -/
theorem quietStep_anonymous (m : SignalMap) (current : Current) (e : Event) :
    quietStep m current e.anonymous =
      (fun r => (r.1, r.2.anonymous)) <$> quietStep m current e := by
  cases hf : e.kind.frequency? with
  | some update =>
      rw [quietStep_frequency hf, quietStep_frequency (e := e.anonymous) hf]
      cases (apply m update.value update.signals current).outcome <;> rfl
  | none =>
      cases hp : e.kind.pulse? with
      | some p =>
          have hk := EventKind.pulse?_eq_some.mp hp
          rw [quietStep_pulse hk, quietStep_pulse (e := e.anonymous) hk]
          cases m.isHardware p.2.signal <;> rfl
      | none => rw [quietStep_idle hf hp, quietStep_idle (e := e.anonymous) hf hp]; rfl

/-! ## One signal -/

/-- The pass keeps the events that concern a signal to themselves. -/
theorem separates_frequency (m : SignalMap) (uid : SignalUid) :
    Separates (quietStep m) (fun e => e.kind.concerns uid) (fun current => current.get? uid) := by
  refine ⟨keepsIds_quietStep m, ?_, ?_, ?_⟩
  · intro current e after e' h
    rcases quietStep_cases h with ⟨_, _, rfl, _⟩ | ⟨_, _, _, hk, _, _, rfl⟩ | ⟨_, _, _, rfl⟩
    · rfl
    · simp [hk, EventKind.concerns, Event.withPulse]
    · rfl
  · intro current e after e' hpart h
    rcases quietStep_cases h with ⟨update, hf, _, ha⟩ | ⟨_, _, _, _, rfl, _, _⟩ | ⟨_, _, rfl, _⟩
    · have hnot : uid ∉ update.signals := by
        obtain ⟨id, time, kind⟩ := e
        cases kind <;> cases hf <;> simpa [EventKind.concerns] using hpart
      rw [(apply_ok ha).2 uid, if_neg (fun h => hnot h.1)]
    · rfl
    · rfl
  · intro current current' e after e' hpart hview h
    rcases quietStep_cases h with ⟨update, hf, rfl, ha⟩ | ⟨_, pulse, _, hk, rfl, hhw, rfl⟩ |
      ⟨hf, hp, rfl, rfl⟩
    · obtain ⟨hknown, hget⟩ := apply_ok ha
      obtain ⟨after', ha'⟩ := apply_of_known update.value current' hknown
      refine ⟨after', ?_, ?_⟩
      · rw [quietStep_frequency hf, ha']
        rfl
      · rw [hget uid, (apply_ok ha').2 uid, hview]
    · have hsignal : pulse.signal = uid := by simpa [hk, EventKind.concerns] using hpart
      refine ⟨current', ?_, hview⟩
      rw [quietStep_pulse hk, hhw]
      show Except.ok _ = Except.ok _
      simp only [annotated, hsignal, hview]
    · exact ⟨current', quietStep_idle hf hp m current', hview⟩

/-! ## Frequencies in effect -/

/-- After a visit, the frequency on a software signal is the last one that was set on it. -/
theorem visit_current {m : SignalMap} {uid : SignalUid} (hsoft : m.isHardware uid = .ok false)
    {es rs : List Event} {current after : Current}
    (h : visit (quietStep m) current es = .ok (after, rs)) :
    after.get? uid =
      ((es.filterMap fun e => e.kind.setsOn uid).getLast?).or (current.get? uid) := by
  induction es generalizing current rs with
  | nil =>
      cases h
      rfl
  | cons e es ih =>
      obtain ⟨mid, e', rs', hstep, hrest, rfl⟩ := visit_cons_ok.mp h
      rw [ih hrest]
      have hmid : mid.get? uid = (e.kind.setsOn uid).or (current.get? uid) := by
        rcases quietStep_cases hstep with ⟨update, hf, _, ha⟩ | ⟨_, _, _, hk, rfl, _, _⟩ |
          ⟨hf, _, rfl, _⟩
        · rw [(apply_ok ha).2 uid]
          simp only [EventKind.setsOn, hf, Option.bind_some, hsoft, and_true]
          split <;> rfl
        · simp [hk, EventKind.setsOn, EventKind.frequency?]
        · simp [EventKind.setsOn, hf]
      rw [hmid]
      cases hs : e.kind.setsOn uid with
      | none => simp only [List.filterMap_cons, hs, Option.none_or]
      | some v =>
          simp only [List.filterMap_cons, hs, List.getLast?_cons, Option.some_or]
          cases (es.filterMap fun e => e.kind.setsOn uid).getLast? <;> rfl

/-! ## Annotation -/

/-- The frequency that the events before `e`, in the order of the pass, have set on a signal. -/
def frequencyBefore (events : List Event) (uid : SignalUid) (e : Event) : Option Float :=
  (((queue rank events).filter fun f => f.place rank < e.place rank).filterMap fun f =>
    f.kind.setsOn uid).getLast?

/-- What the pass makes of an event: a play or an acquisition on a signal in software gets the
    frequency that was set before, and nothing else changes. -/
def WrittenAs (m : SignalMap) (events : List Event) (e e' : Event) : Prop :=
  match e.kind with
  | .pulseStart .delay _ => e' = e
  | .pulseStart activity pulse =>
      ∃ hardware, m.isHardware pulse.signal = .ok hardware ∧
        e' = e.withPulse activity (if hardware then pulse else
          { pulse with
            oscillatorFrequency :=
              (frequencyBefore events pulse.signal e).or pulse.oscillatorFrequency })
  | _ => e' = e

theorem WrittenAs.of_pulse {m : SignalMap} {events : List Event} {e e' : Event}
    {activity : Activity} {pulse : PulseEvent} (h : WrittenAs m events e e')
    (hk : e.kind = .pulseStart activity pulse) (hdelay : activity ≠ .delay) :
    ∃ hardware, m.isHardware pulse.signal = .ok hardware ∧
      e' = e.withPulse activity (if hardware then pulse else
        { pulse with
          oscillatorFrequency :=
            (frequencyBefore events pulse.signal e).or pulse.oscillatorFrequency }) := by
  unfold WrittenAs at h
  rw [hk] at h
  cases activity with
  | play => exact h
  | delay => exact absurd rfl hdelay
  | acquire => exact h

/-- With distinct ids, every event is written as its place in the order of the pass demands. -/
theorem written_spec {m : SignalMap} {events out : List Event}
    (hids : (events.map Event.id).Nodup) (h : written m events = .ok out) :
    List.Forall₂ (WrittenAs m events) events out := by
  refine (sweep_result hids h).imp ?_
  intro e e' hres
  obtain ⟨id, time, kind⟩ := e
  -- Events without a rank are as they were.
  have hunranked : rank kind.type = none → e' = ⟨id, time, kind⟩ := by
    intro hr
    rwa [show rank (Event.type ⟨id, time, kind⟩) = none from hr, if_neg (by simp)] at hres
  have hsame : kind.pulse? = none → e' = ⟨id, time, kind⟩ := by
    intro hp
    by_cases hr : (rank kind.type).isSome = true
    · rw [show rank (Event.type ⟨id, time, kind⟩) = rank kind.type from rfl, if_pos hr] at hres
      obtain ⟨s, s', ws, _, hstep⟩ := hres
      rcases quietStep_cases hstep with ⟨_, _, rfl, _⟩ | ⟨_, _, _, hk, _, _, _⟩ | ⟨_, _, _, rfl⟩
      · rfl
      · rw [show kind = _ from hk] at hp
        cases hp
      · rfl
    · exact hunranked (by simpa using hr)
  have hpulse : ∀ activity pulse, kind = .pulseStart activity pulse → activity ≠ .delay →
      ∃ hardware, m.isHardware pulse.signal = .ok hardware ∧
        e' = (Event.mk id time kind).withPulse activity (if hardware then pulse else
          { pulse with
            oscillatorFrequency := (frequencyBefore events pulse.signal ⟨id, time, kind⟩).or
              pulse.oscillatorFrequency }) := by
    rintro activity pulse rfl hdelay
    have hr : (rank (Event.type ⟨id, time, .pulseStart activity pulse⟩)).isSome = true := by
      cases activity with
      | play => rfl
      | delay => exact absurd rfl hdelay
      | acquire => rfl
    rw [if_pos hr] at hres
    obtain ⟨current, after, ws, hvisit, hstep⟩ := hres
    rw [quietStep_pulse rfl] at hstep
    obtain ⟨hardware, hhw, hstep⟩ := bind_ok hstep
    cases hstep
    refine ⟨hardware, hhw, ?_⟩
    cases hardware with
    | true => rfl
    | false =>
        have hcurrent := visit_current hhw hvisit
        rw [Table.get?_empty, Option.or_none] at hcurrent
        simp only [annotated, hcurrent, frequencyBefore]
  cases kind with
  | pulseStart activity pulse =>
      cases activity with
      | play => exact hpulse .play pulse rfl (by decide)
      | delay => exact hunranked rfl
      | acquire => exact hpulse .acquire pulse rfl (by decide)
  | _ => exact hsame rfl

/-- What sets a frequency is ranked before the pulses. -/
theorem rank_of_setsOn {uid : SignalUid} {f : Event} {v : Float}
    (h : f.kind.setsOn uid = some v) : ∃ r : Int, rank f.type = some r ∧ r < 0 := by
  obtain ⟨id, time, kind⟩ := f
  cases kind <;> first | exact ⟨_, rfl, by decide⟩ | cases h

/-- An event that sets a frequency comes before a play or an acquisition that is not earlier. -/
theorem place_lt_of_setsOn {uid : SignalUid} {f e : Event} {v : Float}
    (hf : f.kind.setsOn uid = some v) (he : rank e.type = some 0) :
    f.place rank < e.place rank ↔ f.time.key ≤ e.time.key := by
  obtain ⟨r, hr, hneg⟩ := rank_of_setsOn hf
  rw [Event.place_lt_iff, hr, he]
  simp only [Option.getD_some]
  omega

/-- In a strictly sorted list the last hit is the hit with the greatest place. -/
theorem getLast?_filterMap_of_greatest {es : List Event} {g : Event → Option Float} {f : Event}
    {v : Float} (hsorted : es.Pairwise fun a b => a.place rank < b.place rank) (hf : f ∈ es)
    (hv : g f = some v) (hmax : ∀ a ∈ es, (g a).isSome → a.place rank ≤ f.place rank) :
    (es.filterMap g).getLast? = some v := by
  obtain ⟨pre, post, rfl⟩ := List.append_of_mem hf
  have hpost : post.filterMap g = [] := by
    refine List.filterMap_eq_nil_iff.mpr fun a ha => ?_
    have hlt := (List.pairwise_cons.mp (List.pairwise_append.mp hsorted).2.1).1 a ha
    have hle := hmax a (by simp [ha])
    cases hg : g a with
    | none => rfl
    | some w => exact absurd (hle (by rw [hg]; rfl)) (not_le.mpr hlt)
  simp only [List.filterMap_append, List.filterMap_cons, hv, hpost]
  exact List.getLast?_concat

section Distinct

variable {events : List Event} {uid : SignalUid} {e f : Event} {v : Float}

/-- Before a play or an acquisition, the frequency is set by the greatest of the events that set
    one and are not later. -/
theorem frequencyBefore_eq_some (hids : (events.map Event.id).Nodup) (he : rank e.type = some 0)
    (hf : f ∈ events) (hv : f.kind.setsOn uid = some v) (hle : f.time.key ≤ e.time.key)
    (hmax : ∀ g ∈ events, (g.kind.setsOn uid).isSome → g.time.key ≤ e.time.key →
      g.place rank ≤ f.place rank) : frequencyBefore events uid e = some v := by
  have hranked : (rank f.type).isSome = true := by
    obtain ⟨r, hr, _⟩ := rank_of_setsOn hv
    rw [hr]
    rfl
  refine getLast?_filterMap_of_greatest ((queue_strict hids).filter _) ?_ hv ?_
  · refine List.mem_filter.mpr ⟨mem_queue.mpr ⟨hf, hranked⟩, ?_⟩
    simpa using (place_lt_of_setsOn hv he).mpr hle
  · intro g hg hset
    obtain ⟨hmem, hlt⟩ := List.mem_filter.mp hg
    obtain ⟨w, hw⟩ := Option.isSome_iff_exists.mp hset
    have hkey := (place_lt_of_setsOn hw he).mp (by simpa using hlt)
    exact hmax g (mem_queue.mp hmem).1 hset hkey

/-- Nothing is set before a play or an acquisition if all that sets a frequency is later. -/
theorem frequencyBefore_eq_none (he : rank e.type = some 0)
    (hnone : ∀ g ∈ events, (g.kind.setsOn uid).isSome → ¬ g.time.key ≤ e.time.key) :
    frequencyBefore events uid e = none := by
  rw [frequencyBefore, List.getLast?_eq_none_iff, List.filterMap_eq_nil_iff]
  intro g hg
  obtain ⟨hmem, hlt⟩ := List.mem_filter.mp hg
  cases hset : g.kind.setsOn uid with
  | none => rfl
  | some w =>
      have hkey := (place_lt_of_setsOn hset he).mp (by simpa using hlt)
      exact absurd hkey (hnone g (mem_queue.mp hmem).1 (by rw [hset]; rfl))

end Distinct

end Frequency

end PulseTimeline
