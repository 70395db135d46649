/-
  Both passes over a list of events, one after the other.

  1. **Pipeline** — the timeline of an experiment is its flattened list with frequencies, then
     phases resolved (`outcome_timeline`).

  2. **What stays** — the passes write on pulses, and only there: up to the four fields that say how
     the oscillator of a pulse turns (`Event.unresolved`), an event stays as it is
     (`unresolved_written`, `unresolved_phases`).  Which events are handled does not depend on these
     fields (`handledEvents_unresolved`).

  3. **What goes** — the surviving events are those that are not used up (`resolveEvents_frame`).

  4. **An example** — `duet`, with one signal in software and one in hardware, for laws that start
     from a timeline.
-/
import PulseTimeline.Proofs.Chains
import PulseTimeline.Proofs.PhasePass
import PulseTimeline.Timeline

namespace PulseTimeline

/-! ## The pipeline -/

/-- The events with the frequencies, then the phases of software oscillators resolved. -/
def resolveEvents (m : SignalMap) (events : List Event) : Except TimelineError (List Event) :=
  (Frequency.resolve m events).outcome >>= Phase.resolve m

/-- A timeline is the flattened experiment with everything resolved, whatever is logged. -/
theorem Experiment.outcome_timeline (x : Experiment) (d : Diagnostics) (tick : Float)
    (o : LoweringOptions) :
    (x.timeline d tick o).outcome = x.flatten tick o >>= resolveEvents x.signalMap := by
  simp only [timeline, flattenLogged, Logged.outcome_bind, Logged.outcome_note,
    Logged.outcome_ofExcept]
  rfl

/-- The stages of a successful resolution. -/
theorem resolveEvents_ok {m : SignalMap} {events out : List Event}
    (h : resolveEvents m events = .ok out) :
    ∃ es ids, Frequency.written m events = .ok es ∧ handledEvents m es = .ok ids ∧
      Phase.resolve m (removeEvents ids es) = .ok out := by
  obtain ⟨rs, hfrequency, hphase⟩ := bind_ok h
  rw [Frequency.outcome_resolve] at hfrequency
  obtain ⟨es, hwritten, hfrequency⟩ := bind_ok hfrequency
  obtain ⟨ids, hhandled, hremove⟩ := bind_ok hfrequency
  cases hremove
  exact ⟨es, ids, hwritten, hhandled, hphase⟩

/-! ## What the passes leave alone -/

/-- The pulse without what the passes write or use up. -/
def PulseEvent.unresolved (pulse : PulseEvent) : PulseEvent :=
  { pulse with
    phaseIncrement := none
    phaseSet := none
    oscillatorFrequency := none
    oscillatorPhase := none }

/-- The kind without what the passes write or use up. -/
def EventKind.unresolved : EventKind → EventKind
  | .pulseStart activity pulse => .pulseStart activity pulse.unresolved
  | kind => kind

/-- The event without what the passes write or use up. -/
def Event.unresolved (e : Event) : Event := { e with kind := e.kind.unresolved }

@[simp] theorem id_unresolved (e : Event) : e.unresolved.id = e.id := rfl

@[simp] theorem kind_unresolved (e : Event) : e.unresolved.kind = e.kind.unresolved := rfl

namespace EventKind

@[simp] theorem chain?_unresolved (k : EventKind) : k.unresolved.chain? = k.chain? := by
  cases k <;> rfl

@[simp] theorem isStart_unresolved (k : EventKind) : k.unresolved.isStart = k.isStart := by
  cases k <;> rfl

@[simp] theorem frequencyChain?_unresolved (k : EventKind) :
    k.unresolved.frequencyChain? = k.frequencyChain? := by
  cases k <;> rfl

@[simp] theorem isHandledStart_unresolved (m : SignalMap) (k : EventKind) :
    isHandledStart m k.unresolved = isHandledStart m k := by
  cases k <;> rfl

@[simp] theorem opens_unresolved (first last : EventKind) :
    first.unresolved.Opens last.unresolved ↔ first.Opens last := by
  cases first <;> cases last <;> rfl

end EventKind

/-- Writing another pulse on an event does not show without what the passes write. -/
theorem unresolved_withPulse {e : Event} {activity : Activity} {pulse pulse' : PulseEvent}
    (hk : e.kind = .pulseStart activity pulse) (h : pulse'.unresolved = pulse.unresolved) :
    (e.withPulse activity pulse').unresolved = e.unresolved := by
  obtain ⟨id, time, kind⟩ := e
  subst hk
  show Event.mk id time (.pulseStart activity pulse'.unresolved) =
    Event.mk id time (.pulseStart activity pulse.unresolved)
  rw [h]

/-- The frequency pass changes nothing but the frequency of pulses. -/
theorem unresolved_written {m : SignalMap} {events es : List Event}
    (h : Frequency.written m events = .ok es) :
    es.map Event.unresolved = events.map Event.unresolved := by
  refine sweep_invariant ?_ h
  intro current e after e' hstep
  rcases Frequency.quietStep_cases hstep with ⟨_, _, rfl, _⟩ | ⟨_, _, hardware, hk, _, _, rfl⟩ |
    ⟨_, _, _, rfl⟩
  · rfl
  · refine unresolved_withPulse hk ?_
    cases hardware <;> rfl
  · rfl

/-- The phase pass changes nothing but the phases of pulses. -/
theorem unresolved_phases {m : SignalMap} {events es : List Event}
    (h : Phase.resolve m events = .ok es) :
    es.map Event.unresolved = events.map Event.unresolved := by
  refine sweep_invariant ?_ h
  intro s e after e' hstep
  rcases Phase.step_cases hstep with ⟨_, _, rfl⟩ | ⟨_, _, _, hk, hres, rfl⟩ | ⟨_, _, _, rfl⟩
  · rfl
  · refine unresolved_withPulse hk ?_
    rcases Phase.resolvePulse_ok.mp hres with ⟨_, hset, _, rfl⟩ | ⟨_, _, _, _, rfl⟩ <;> rfl
  · rfl

/-- Lists that agree without what the passes write have the same ids. -/
theorem map_id_of_unresolved {as bs : List Event}
    (h : as.map Event.unresolved = bs.map Event.unresolved) :
    as.map Event.id = bs.map Event.id := by
  have h' := congrArg (List.map Event.id) h
  rwa [List.map_map, List.map_map] at h'

/-! ## What the passes remove -/

/-- Where the frequency pass succeeds, it can be said of every event whether it is handled. -/
theorem known_of_written {m : SignalMap} {events es : List Event}
    (h : Frequency.written m events = .ok es) :
    ∀ e ∈ events, ∃ b, isHandledStart m e.kind = .ok b := by
  have hknown : ∀ e e', (if (Frequency.rank e.type).isSome then
      ∃ s s', Frequency.quietStep m s e = .ok (s', e') else e' = e) →
        ∃ b, isHandledStart m e.kind = .ok b := by
    intro e e' hres
    cases hk : e.kind with
    | setFrequencyStart update =>
        have hr : Frequency.rank e.type = some (-15) := by
          unfold Event.type
          rw [hk]
          rfl
        rw [if_pos (by rw [hr]; rfl)] at hres
        obtain ⟨s, s', hstep⟩ := hres
        rw [Frequency.quietStep_frequency (by rw [hk]; rfl)] at hstep
        obtain ⟨after, happly, _⟩ := bind_ok hstep
        exact anySoftware_of_known (Frequency.apply_ok happly).1
    | _ => exact ⟨_, rfl⟩
  have hrel := (sweep_frame h).imp hknown
  intro e he
  obtain ⟨i, hi, rfl⟩ := List.mem_iff_getElem.mp he
  exact (List.forall₂_iff_get.mp hrel).2 i hi (hrel.length_eq ▸ hi)

/-! What is handled is not a matter of what the passes write. -/

/-- Which starts are handled, and so which ends and which events, can be said without what the
    passes write. -/
theorem handledStarts_unresolved (m : SignalMap) (events : List Event) (ids : List Nat) :
    handledStarts m (events.map Event.unresolved) ids = handledStarts m events ids := by
  induction events generalizing ids with
  | nil => rfl
  | cons e es ih =>
      simp only [List.map_cons, handledStarts, kind_unresolved, EventKind.isHandledStart_unresolved,
        id_unresolved, ih]

/-- The ends are looked up by their chains, which no pass touches. -/
theorem handledEnds_unresolved (events : List Event) (ids : List Nat) :
    handledEnds (events.map Event.unresolved) ids = handledEnds events ids := by
  induction events generalizing ids with
  | nil => rfl
  | cons e es ih =>
      simp only [List.map_cons, handledEnds_cons, kind_unresolved,
        EventKind.frequencyChain?_unresolved, id_unresolved, ih]

/-- The handled ids, and the error if they cannot be found, come out the same. -/
theorem handledEvents_unresolved (m : SignalMap) (events : List Event) :
    handledEvents m (events.map Event.unresolved) = handledEvents m events := by
  unfold handledEvents
  simp only [handledStarts_unresolved, handledEnds_unresolved]

/-- An event is used up by its kind and its chain. -/
theorem usedUp_unresolved {m : SignalMap} {events : List Event} {e : Event} :
    UsedUp m (events.map Event.unresolved) e.unresolved ↔ UsedUp m events e := by
  simp [UsedUp]

/-- Whether the signals of all settings are known does not depend on the pulses. -/
theorem known_unresolved {m : SignalMap} {events : List Event} :
    (∀ e ∈ events.map Event.unresolved, ∃ b, isHandledStart m e.kind = .ok b) ↔
      ∀ e ∈ events, ∃ b, isHandledStart m e.kind = .ok b := by
  simp

/-- Whether ends name no ends is a matter of ids and chains, which no pass touches. -/
theorem endsNameNoEnds_unresolved {events : List Event} :
    EndsNameNoEnds (events.map Event.unresolved) ↔ EndsNameNoEnds events := by
  simp [EndsNameNoEnds]

/-- So is the order of ids. -/
theorem increase_unresolved {events : List Event} :
    IdsIncrease (events.map Event.unresolved) ↔ IdsIncrease events := by
  unfold IdsIncrease
  rw [List.pairwise_map]
  simp only [kind_unresolved, EventKind.isStart_unresolved, id_unresolved]

section Written

variable {m : SignalMap} {events es : List Event}

/-! What is known of the ids of a list is known of them after the frequency pass. -/

/-- The frequency pass keeps ids distinct. -/
theorem nodup_written (h : Frequency.written m events = .ok es)
    (hids : (events.map Event.id).Nodup) : (es.map Event.id).Nodup := by
  rw [map_id_of_unresolved (unresolved_written h)]
  exact hids

/-- It keeps them in their order. -/
theorem increase_written (h : Frequency.written m events = .ok es) (hinc : IdsIncrease events) :
    IdsIncrease es := by
  rw [← increase_unresolved, unresolved_written h, increase_unresolved]
  exact hinc

/-- It leaves the ends as they are. -/
theorem endsNameNoEnds_written (h : Frequency.written m events = .ok es)
    (hends : EndsNameNoEnds events) : EndsNameNoEnds es := by
  rw [← endsNameNoEnds_unresolved, unresolved_written h, endsNameNoEnds_unresolved]
  exact hends

end Written

/-- Two filters that decide alike on events that agree keep what agrees. -/
theorem map_filter_unresolved {as bs : List Event} {p q : Event → Bool}
    (h : as.map Event.unresolved = bs.map Event.unresolved)
    (hpq : ∀ a ∈ as, ∀ b ∈ bs, a.unresolved = b.unresolved → p a = q b) :
    (as.filter p).map Event.unresolved = (bs.filter q).map Event.unresolved := by
  induction as generalizing bs with
  | nil =>
      rw [List.map_nil, eq_comm, List.map_eq_nil_iff] at h
      subst h
      rfl
  | cons a as ih =>
      cases bs with
      | nil => cases h
      | cons b bs =>
          rw [List.map_cons, List.map_cons, List.cons.injEq] at h
          have hab := hpq a List.mem_cons_self b List.mem_cons_self h.1
          have hrest := ih h.2 fun c hc d hd =>
            hpq c (List.mem_cons_of_mem _ hc) d (List.mem_cons_of_mem _ hd)
          cases hq : q b with
          | true =>
              rw [List.filter_cons_of_pos (by rw [hab, hq]), List.filter_cons_of_pos hq,
                List.map_cons, List.map_cons, h.1, hrest]
          | false =>
              rw [List.filter_cons_of_neg (by rw [hab, hq]; decide),
                List.filter_cons_of_neg (by rw [hq]; decide), hrest]

/-- The resolved events are, up to what is written on pulses, the events that are not used up. -/
theorem resolveEvents_frame {m : SignalMap} {events out : List Event}
    (hids : (events.map Event.id).Nodup) (hends : EndsNameNoEnds events)
    (h : resolveEvents m events = .ok out) :
    out.map Event.unresolved =
      (events.filter fun e => ¬ UsedUp m events e).map Event.unresolved := by
  obtain ⟨es, ids, hwritten, hhandled, hphase⟩ := resolveEvents_ok h
  have hsame := unresolved_written hwritten
  have hids' := nodup_written hwritten hids
  have hends' := endsNameNoEnds_written hwritten hends
  rw [unresolved_phases hphase, removeEvents]
  refine map_filter_unresolved hsame fun a ha b _ hab => ?_
  have hused : UsedUp m es a ↔ UsedUp m events b := by
    rw [← usedUp_unresolved, hsame, hab, usedUp_unresolved]
  simp only [mem_handledEvents hids' hends' hhandled ha, hused]

/-! ## An example -/

/-- Two signals of one device, the first modulated in software, the second in hardware.  In a
    section the software signal is played, both frequencies are set, the phases are reset, and the
    software signal is acquired. -/
def duet : Experiment where
  root := some ⟨.root, none, [
    (0, .leaf (.initialFrequency [⟨⟨⟨⟨5⟩⟩, .software, [⟨⟨0⟩⟩]⟩, 1e6, none⟩]) none),
    (0, ⟨.sect ⟨⟨7⟩⟩, some 100, [
      (0, .leaf (.play ⟨⟨⟨0⟩⟩, none, none, 0.0, some 0.5, none⟩) (some 20)),
      (20, .leaf (.setFrequency ⟨⟨7⟩⟩ [⟨⟨⟨⟨5⟩⟩, .software, [⟨⟨0⟩⟩]⟩, 2e6, none⟩,
        ⟨⟨⟨⟨6⟩⟩, .hardware, [⟨⟨1⟩⟩]⟩, 3e6, none⟩] 0) (some 10)),
      (30, .leaf (.resetSoftwarePhase none) none),
      (30, .leaf (.delay ⟨⟨1⟩⟩ none none) (some 20)),
      (50, .leaf (.acquire ⟨⟨0⟩⟩ none none) (some 50))]⟩)]⟩
  signals := [⟨⟨⟨0⟩⟩, ⟨⟨9⟩⟩, some ⟨⟨⟨5⟩⟩, .software, [⟨⟨0⟩⟩]⟩⟩,
    ⟨⟨⟨1⟩⟩, ⟨⟨9⟩⟩, some ⟨⟨⟨6⟩⟩, .hardware, [⟨⟨1⟩⟩]⟩⟩]
  devices := [⟨⟨⟨9⟩⟩, .shfsg⟩]
  names := .empty

/-- The timeline of the example, a tick lasting a nanosecond. -/
def duetTimeline : List Event :=
  (duet.timeline ⟨false⟩ 1e-9 ⟨true, 100⟩).outcome.toOption.getD []

/-- The example has a timeline. -/
theorem duet_timeline :
    (duet.timeline ⟨false⟩ 1e-9 ⟨true, 100⟩).outcome = .ok duetTimeline := by
  decide +kernel

end PulseTimeline
