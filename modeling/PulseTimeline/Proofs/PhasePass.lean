/-
  The phase pass, event by event.

  1. **Running phase** — what a pulse does to the running phase of its signal (`Running.advanced`),
     and that it does nothing to any other signal (`get?_advance`).

  2. **Step** — a step of the pass is a reset, a pulse whose phase is resolved, or nothing at all
     (`step_cases`).  It keeps ids and does not look at them (`keepsIds_step`, `step_anonymous`).

  3. **One signal** — the pass treats the pulses on a signal and the resets as if there were no
     other events (`separates_phase`).
-/
import PulseTimeline.Proofs.FrequencyPass
import PulseTimeline.Resolution.Phase

namespace PulseTimeline

/-- Whether the event resets the phase of software oscillators. -/
def EventKind.isReset : EventKind → Bool
  | .resetSoftwarePhase _ => true
  | _ => false

/-- Whether an event matters for the phase on a signal: it is a pulse there, or a reset. -/
def EventKind.turns (uid : SignalUid) : EventKind → Bool
  | .pulseStart _ pulse => pulse.signal = uid
  | .resetSoftwarePhase _ => true
  | _ => false

namespace Phase

/-! ## Running phases -/

/-- The running phase of a signal after a pulse on it. -/
def Running.advanced (r : Option Running) (time : Float) (pulse : PulseEvent) : Option Running :=
  match pulse.phaseSet, pulse.phaseIncrement with
  | some value, _ => some ⟨value, time⟩
  | none, some value => some { r.getD .fresh with carried := (r.getD .fresh).carried + value }
  | none, none => r

/-- A pulse advances the running phase of its own signal and leaves the other signals alone. -/
theorem get?_advance (s : State) (time : Float) (pulse : PulseEvent) (q : SignalUid) :
    (s.advance time pulse).signals.get? q =
      if q = pulse.signal then Running.advanced (s.signals.get? q) time pulse
      else s.signals.get? q := by
  unfold State.advance Running.advanced
  by_cases hq : q = pulse.signal
  · subst hq
    rw [if_pos rfl]
    cases pulse.phaseSet with
    | some value => simp [State.assign, Table.get?_insert]
    | none =>
        cases pulse.phaseIncrement with
        | some value => simp [State.increment, Table.get?_alter]
        | none => rfl
  · rw [if_neg hq]
    cases pulse.phaseSet with
    | some value =>
        cases pulse.phaseIncrement with
        | some value' =>
            simp [State.assign, State.increment, Table.get?_insert, Table.get?_alter, hq]
        | none => simp [State.assign, Table.get?_insert, hq]
    | none =>
        cases pulse.phaseIncrement with
        | some value => simp [State.increment, Table.get?_alter, hq]
        | none => rfl

@[simp] theorem resetTime_advance (s : State) (time : Float) (pulse : PulseEvent) :
    (s.advance time pulse).resetTime = s.resetTime := by
  unfold State.advance
  cases pulse.phaseSet <;> cases pulse.phaseIncrement <;> rfl

/-- What the pulses on a signal see of the state. -/
def State.view (uid : SignalUid) (s : State) : Option Running × Float :=
  (s.signals.get? uid, s.resetTime)

/-- A pulse leaves what is known of other signals alone. -/
theorem view_advance_of_ne {uid : SignalUid} {pulse : PulseEvent} (h : pulse.signal ≠ uid)
    (s : State) (time : Float) : (s.advance time pulse).view uid = s.view uid := by
  rw [State.view, get?_advance, if_neg h.symm, resetTime_advance]
  rfl

/-- What a pulse makes of its signal depends on what is known of that signal. -/
theorem view_advance_congr {uid : SignalUid} {pulse : PulseEvent} (h : pulse.signal = uid)
    {s t : State} (hview : s.view uid = t.view uid) (time : Float) :
    (s.advance time pulse).view uid = (t.advance time pulse).view uid := by
  obtain ⟨hget, hreset⟩ := Prod.ext_iff.mp hview
  have hget' : s.signals.get? uid = t.signals.get? uid := hget
  have hreset' : s.resetTime = t.resetTime := hreset
  simp only [State.view, get?_advance, resetTime_advance, hget', hreset', h]

theorem view_reset_congr {uid : SignalUid} {s t : State} (hview : s.view uid = t.view uid)
    (time : Float) : (s.reset time).view uid = (t.reset time).view uid := by
  have hget : s.signals.get? uid = t.signals.get? uid := (Prod.ext_iff.mp hview).1
  simp only [State.view, State.reset, Table.get?_mapValues, hget]

/-- The phase at a pulse depends on what is known of its signal. -/
theorem phaseAt_congr {uid : SignalUid} {s t : State} (hview : s.view uid = t.view uid)
    (frequency time : Float) : s.phaseAt uid frequency time = t.phaseAt uid frequency time := by
  have hget : s.signals.get? uid = t.signals.get? uid := (Prod.ext_iff.mp hview).1
  have hreset : s.resetTime = t.resetTime := (Prod.ext_iff.mp hview).2
  simp only [State.phaseAt, hget, hreset]

/-! ## The step -/

/-- The pass visits resets and pulses. -/
theorem isSome_rank (e : Event) :
    (rank e.type).isSome = (e.kind.isReset || e.kind.pulse?.isSome) := by
  obtain ⟨id, time, kind⟩ := e
  cases kind <;> rfl

/-- A pulse in software with its phase resolved in the state `s`, which it has advanced already. -/
def resolved (readout : Bool) (s : State) (time : Float) (pulse : PulseEvent) : PulseEvent :=
  { pulse with
    phaseIncrement := none
    phaseSet := none
    oscillatorPhase := some (if readout then 0.0 else
      s.phaseAt pulse.signal (pulse.oscillatorFrequency.getD 0.0) time) }

/-- How a pulse can be resolved. -/
theorem resolvePulse_ok {m : SignalMap} {s after : State} {time : Float}
    {pulse pulse' : PulseEvent} :
    resolvePulse m s time pulse = .ok (after, pulse') ↔
      (m.isHardware pulse.signal = .ok true ∧ pulse.phaseSet = none ∧ after = s ∧
        pulse' = { pulse with oscillatorPhase := none }) ∨
      (m.isHardware pulse.signal = .ok false ∧ ∃ readout, m.isReadout pulse.signal = .ok readout ∧
        after = s.advance time pulse ∧ pulse' = resolved readout after time pulse) := by
  rw [resolvePulse]
  cases hhw : m.isHardware pulse.signal with
  | error x =>
      constructor
      · intro h
        cases h
      · rintro (⟨h, _⟩ | ⟨h, _⟩) <;> cases h
  | ok hardware =>
      cases hardware with
      | true =>
          cases hset : pulse.phaseSet with
          | some value =>
              constructor
              · intro h
                cases h
              · rintro (⟨_, h, _⟩ | ⟨h, _⟩) <;> cases h
          | none =>
              constructor
              · intro h
                cases h
                exact .inl ⟨rfl, rfl, rfl, rfl⟩
              · rintro (⟨_, _, rfl, rfl⟩ | ⟨h, _⟩)
                · rfl
                · cases h
      | false =>
          show (m.isReadout pulse.signal >>= fun readout => Except.ok (s.advance time pulse,
            resolved readout (s.advance time pulse) time pulse)) = .ok (after, pulse') ↔ _
          constructor
          · intro h
            obtain ⟨readout, hreadout, h⟩ := bind_ok h
            cases h
            exact .inr ⟨rfl, readout, hreadout, rfl, rfl⟩
          · rintro (⟨h, _⟩ | ⟨_, readout, hreadout, rfl, rfl⟩)
            · cases h
            · rw [hreadout]
              rfl

/-- A reset changes the state and is left as it is. -/
theorem step_reset {e : Event} (h : e.kind.isReset = true) (m : SignalMap) (s : State) :
    step m s e = .ok (s.reset e.time.toFloat, e) := by
  obtain ⟨id, time, kind⟩ := e
  cases kind <;> first | rfl | cases h

/-- A pulse is replaced by the resolved one. -/
theorem step_pulse {e : Event} {activity : Activity} {pulse : PulseEvent}
    (h : e.kind = .pulseStart activity pulse) (m : SignalMap) (s : State) :
    step m s e = resolvePulse m s e.time.toFloat pulse >>= fun r =>
      .ok (r.1, e.withPulse activity r.2) := by
  obtain ⟨id, time, kind⟩ := e
  subst h
  rfl

/-- Other events pass through. -/
theorem step_idle {e : Event} (hr : e.kind.isReset = false) (hp : e.kind.pulse? = none)
    (m : SignalMap) (s : State) : step m s e = .ok (s, e) := by
  obtain ⟨id, time, kind⟩ := e
  cases kind <;> first | rfl | simp [EventKind.isReset, EventKind.pulse?] at hr hp

/-- What a step can be. -/
theorem step_cases {m : SignalMap} {s after : State} {e e' : Event}
    (h : step m s e = .ok (after, e')) :
    (e.kind.isReset = true ∧ after = s.reset e.time.toFloat ∧ e' = e) ∨
    (∃ activity pulse pulse', e.kind = .pulseStart activity pulse ∧
      resolvePulse m s e.time.toFloat pulse = .ok (after, pulse') ∧
      e' = e.withPulse activity pulse') ∨
    (e.kind.isReset = false ∧ e.kind.pulse? = none ∧ after = s ∧ e' = e) := by
  cases hr : e.kind.isReset with
  | true =>
      rw [step_reset hr] at h
      cases h
      exact .inl ⟨rfl, rfl, rfl⟩
  | false =>
      cases hp : e.kind.pulse? with
      | some p =>
          have hk := EventKind.pulse?_eq_some.mp hp
          rw [step_pulse hk] at h
          obtain ⟨r, hres, h⟩ := bind_ok h
          cases h
          exact .inr (.inl ⟨p.1, p.2, r.2, hk, hres, rfl⟩)
      | none =>
          rw [step_idle hr hp] at h
          cases h
          exact .inr (.inr ⟨rfl, rfl, rfl, rfl⟩)

theorem keepsIds_step (m : SignalMap) : KeepsIds (step m) := by
  intro s e after e' h
  rcases step_cases h with ⟨_, _, rfl⟩ | ⟨_, _, _, _, _, rfl⟩ | ⟨_, _, _, rfl⟩ <;> rfl

/-- A step sees no ids. -/
theorem step_anonymous (m : SignalMap) (s : State) (e : Event) :
    step m s e.anonymous = (fun r => (r.1, r.2.anonymous)) <$> step m s e := by
  cases hr : e.kind.isReset with
  | true =>
      rw [step_reset hr, step_reset (e := e.anonymous) hr]
      rfl
  | false =>
      cases hp : e.kind.pulse? with
      | some p =>
          have hk := EventKind.pulse?_eq_some.mp hp
          rw [step_pulse hk, step_pulse (e := e.anonymous) hk]
          show (resolvePulse m s e.time.toFloat p.2 >>= _) = _ <$> (_ >>= _)
          cases resolvePulse m s e.time.toFloat p.2 <;> rfl
      | none =>
          rw [step_idle hr hp, step_idle (e := e.anonymous) hr hp]
          rfl

/-! ## One signal -/

/-- How a pulse is resolved depends on what the pulses on its signal see of the state. -/
theorem resolvePulse_congr {m : SignalMap} {uid : SignalUid} {s t after : State} {time : Float}
    {pulse pulse' : PulseEvent} (hsignal : pulse.signal = uid) (hview : s.view uid = t.view uid)
    (h : resolvePulse m s time pulse = .ok (after, pulse')) :
    ∃ after', resolvePulse m t time pulse = .ok (after', pulse') ∧
      after.view uid = after'.view uid := by
  rcases resolvePulse_ok.mp h with ⟨hhw, hset, rfl, rfl⟩ | ⟨hhw, readout, hreadout, rfl, rfl⟩
  · exact ⟨t, resolvePulse_ok.mpr (.inl ⟨hhw, hset, rfl, rfl⟩), hview⟩
  · have hadvance := view_advance_congr hsignal hview time
    refine ⟨t.advance time pulse, resolvePulse_ok.mpr (.inr ⟨hhw, readout, hreadout, rfl, ?_⟩),
      hadvance⟩
    simp only [resolved, hsignal, phaseAt_congr hadvance]

/-- A pulse leaves alone what the pulses on another signal see of the state. -/
theorem resolvePulse_of_ne {m : SignalMap} {uid : SignalUid} {s after : State} {time : Float}
    {pulse pulse' : PulseEvent} (hsignal : pulse.signal ≠ uid)
    (h : resolvePulse m s time pulse = .ok (after, pulse')) : after.view uid = s.view uid := by
  rcases resolvePulse_ok.mp h with ⟨_, _, rfl, _⟩ | ⟨_, _, _, rfl, _⟩
  · rfl
  · exact view_advance_of_ne hsignal s time

/-- Resolving a pulse keeps its signal. -/
theorem signal_resolvePulse {m : SignalMap} {s after : State} {time : Float}
    {pulse pulse' : PulseEvent} (h : resolvePulse m s time pulse = .ok (after, pulse')) :
    pulse'.signal = pulse.signal := by
  rcases resolvePulse_ok.mp h with ⟨_, _, _, rfl⟩ | ⟨_, _, _, _, rfl⟩ <;> rfl

/-- The pass keeps the pulses on a signal and the resets to themselves. -/
theorem separates_phase (m : SignalMap) (uid : SignalUid) :
    Separates (step m) (fun e => e.kind.turns uid) (State.view uid) := by
  refine ⟨keepsIds_step m, ?_, ?_, ?_⟩
  · intro s e after e' h
    rcases step_cases h with ⟨_, _, rfl⟩ | ⟨_, pulse, pulse', hk, hres, rfl⟩ | ⟨_, _, _, rfl⟩
    · rfl
    · have hsignal := signal_resolvePulse hres
      simp [hk, EventKind.turns, Event.withPulse, hsignal]
    · rfl
  · intro s e after e' hpart h
    rcases step_cases h with ⟨hr, _, _⟩ | ⟨_, pulse, _, hk, hres, _⟩ | ⟨_, _, rfl, _⟩
    · -- Resets are of the part.
      obtain ⟨id, time, kind⟩ := e
      cases kind <;> first | (cases hr; done) | cases hpart
    · have hne : pulse.signal ≠ uid := by simpa [hk, EventKind.turns] using hpart
      exact resolvePulse_of_ne hne hres
    · rfl
  · intro s t e after e' hpart hview h
    rcases step_cases h with ⟨hr, rfl, rfl⟩ | ⟨activity, pulse, pulse', hk, hres, rfl⟩ |
      ⟨hr, hp, rfl, rfl⟩
    · exact ⟨_, step_reset hr m t, view_reset_congr hview _⟩
    · have hsignal : pulse.signal = uid := by simpa [hk, EventKind.turns] using hpart
      obtain ⟨after', hres', hview'⟩ := resolvePulse_congr hsignal hview hres
      refine ⟨after', ?_, hview'⟩
      rw [step_pulse hk, hres']
      rfl
    · exact ⟨t, step_idle hr hp m t, hview⟩

end Phase

end PulseTimeline
