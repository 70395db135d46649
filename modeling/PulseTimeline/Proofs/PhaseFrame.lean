/-
  What the phase pass touches.

  1. **Event by event** — `PhasedAs` says what may become of an event: only pulses change, and of a
     pulse only the increment, the set and the phase of its oscillator.  In software the increment and
     the set are used up, in hardware the increment stays and a set is refused.

  2. **Frame** — a step keeps to this, whatever happened before (`phasedAs_of_step`), and events that
     are not visited stay as they are; hence the pass keeps to it on every list, whatever the ids are
     (`phasedAs_of_resolve`).

  3. **Removal** — what is handled is not a matter of phases, and no event that the pass visits is
     handled (`kept_of_ranked`).  So the handled events may as well be removed before the phases are
     resolved as afterwards: the outcome is the same, be it a failure or a list
     (`resolve_removeEvents`).
-/
import PulseTimeline.Proofs.Pipeline

namespace PulseTimeline.Phase

variable {m : SignalMap} {events : List Event}

/-! ## Event by event -/

/-- What the phase pass may make of an event. -/
structure PhasedAs (m : SignalMap) (e e' : Event) : Prop where
  id : e'.id = e.id
  time : e'.time = e.time
  type : e'.type = e.type
  other : e.kind.pulse? = none → e' = e
  /-- On a signal in hardware the increment is left to the device. -/
  hardware : ∀ activity pulse, e.kind = .pulseStart activity pulse →
    m.isHardware pulse.signal = .ok true →
      pulse.phaseSet = none ∧ e' = e.withPulse activity { pulse with oscillatorPhase := none }
  /-- On any other signal the increment and the set give way to a phase, which is zero if the signal
      belongs to a readout instrument. -/
  software : ∀ activity pulse, e.kind = .pulseStart activity pulse →
    m.isHardware pulse.signal ≠ .ok true →
      ∃ phase, e' = e.withPulse activity
          { pulse with phaseIncrement := none, phaseSet := none, oscillatorPhase := some phase } ∧
        (m.isReadout pulse.signal = .ok true → phase = 0.0)

/-- An event that is no pulse stays as it is. -/
theorem PhasedAs.of_other {e : Event} (h : e.kind.pulse? = none) (m : SignalMap) :
    PhasedAs m e e := by
  have hnot : ∀ activity pulse, e.kind ≠ .pulseStart activity pulse := by
    intro activity pulse hk
    rw [hk] at h
    cases h
  exact ⟨rfl, rfl, rfl, fun _ => rfl, fun activity pulse hk => absurd hk (hnot activity pulse),
    fun activity pulse hk => absurd hk (hnot activity pulse)⟩

/-- A pulse is resolved in hardware or in software; it stays at its place in the list. -/
theorem PhasedAs.of_pulse {s after : State} {e : Event} {activity : Activity}
    {pulse pulse' : PulseEvent} (hk : e.kind = .pulseStart activity pulse)
    (hres : resolvePulse m s e.time.toFloat pulse = .ok (after, pulse')) :
    PhasedAs m e (e.withPulse activity pulse') := by
  obtain ⟨id, time, kind⟩ := e
  subst hk
  have hother : ∀ e', EventKind.pulse? (.pulseStart activity pulse) = none →
      e' = Event.mk id time (.pulseStart activity pulse) := by
    intro e' hp
    cases hp
  rcases resolvePulse_ok.mp hres with ⟨hhw, hset, _, rfl⟩ | ⟨hhw, readout, hreadout, _, rfl⟩
  · refine ⟨rfl, rfl, rfl, hother _, ?_, ?_⟩
    · intro activity' p hp _
      cases hp
      exact ⟨hset, rfl⟩
    · intro activity' p hp hsoft
      cases hp
      exact absurd hhw hsoft
  · refine ⟨rfl, rfl, rfl, hother _, ?_, ?_⟩
    · intro activity' p hp hhard
      cases hp
      rw [hhw] at hhard
      cases hhard
    · intro activity' p hp _
      cases hp
      refine ⟨_, rfl, fun hread => ?_⟩
      rw [hread] at hreadout
      cases hreadout
      rfl

/-! ## Frame -/

theorem pulse?_of_isReset {kind : EventKind} (h : kind.isReset = true) : kind.pulse? = none := by
  cases kind with
  | resetSoftwarePhase owner => rfl
  | _ => cases h

/-- A step changes no more than it may, in whatever state it is made. -/
theorem phasedAs_of_step {s after : State} {e e' : Event} (h : step m s e = .ok (after, e')) :
    PhasedAs m e e' := by
  rcases step_cases h with ⟨hr, _, rfl⟩ | ⟨_, _, _, hk, hres, rfl⟩ | ⟨_, hp, _, rfl⟩
  · exact .of_other (pulse?_of_isReset hr) m
  · exact .of_pulse hk hres
  · exact .of_other hp m

/-- Every event of the list comes out at its place, and is changed no more than the pass may change
    it: pulses lose the phase commands of software oscillators and get a phase, and nothing else is
    touched. -/
theorem phasedAs_of_resolve {out : List Event} (h : resolve m events = .ok out) :
    List.Forall₂ (PhasedAs m) events out := by
  refine (sweep_frame h).imp fun e e' hres => ?_
  split at hres
  · obtain ⟨s, s', hstep⟩ := hres
    exact phasedAs_of_step hstep
  · rename_i hunranked
    subst hres
    refine .of_other ?_ m
    rw [isSome_rank, Bool.or_eq_true, not_or] at hunranked
    exact Option.not_isSome_iff_eq_none.mp hunranked.2

/-- Four signals: with an oscillator in software, with one in hardware, with one in software on a
    readout instrument, and with none. -/
def quartet : Experiment where
  root := none
  signals := [⟨⟨⟨0⟩⟩, ⟨⟨8⟩⟩, some ⟨⟨⟨5⟩⟩, .software, [⟨⟨0⟩⟩]⟩⟩,
    ⟨⟨⟨1⟩⟩, ⟨⟨8⟩⟩, some ⟨⟨⟨6⟩⟩, .hardware, [⟨⟨1⟩⟩]⟩⟩,
    ⟨⟨⟨2⟩⟩, ⟨⟨9⟩⟩, some ⟨⟨⟨7⟩⟩, .software, [⟨⟨2⟩⟩]⟩⟩,
    ⟨⟨⟨3⟩⟩, ⟨⟨8⟩⟩, none⟩]
  devices := [⟨⟨⟨8⟩⟩, .shfsg⟩, ⟨⟨⟨9⟩⟩, .shfqa⟩]
  names := .empty

/-- A pulse on a signal of `quartet`, `seconds` after the start. -/
def quartetPulse (id : Nat) (seconds : Float) (activity : Activity) (signal : Nat)
    (increment set : Option Float) : Event where
  id := id
  time := ⟨seconds.toBits⟩
  kind := .pulseStart activity
    { PulseEvent.bare ⟨⟨signal⟩⟩ none with
      phaseIncrement := increment, phaseSet := set, oscillatorFrequency := some 1e6 }

/-- Pulses on all four signals, two of them with the same id, in no order. -/
def quartetPulses : List Event :=
  [quartetPulse 3 2.0 .play 0 (some 0.5) none, quartetPulse 3 1.5 .delay 1 (some 0.25) none,
    ⟨4, ⟨(1.0 : Float).toBits⟩, .resetSoftwarePhase none⟩,
    quartetPulse 1 0.5 .acquire 2 (some 9.0) (some 0.75),
    quartetPulse 0 3.0 .delay 3 (some 0.5) (some 0.125)]

/-- The increment in hardware is still there; all other commands are used up, and the readout pulse
    has the phase zero. -/
theorem quartet_phased : ∃ out, resolve quartet.signalMap quartetPulses = .ok out ∧
    List.Forall₂ (PhasedAs quartet.signalMap) quartetPulses out ∧
    out.filterMap (fun e => e.kind.pulse?.map fun p =>
      (p.2.phaseIncrement, p.2.phaseSet, p.2.oscillatorPhase)) =
        [(none, none, some (turned 2.0 1.0 1e6 0.5)), (some 0.25, none, none),
          (none, none, some 0.0), (none, none, some 0.125)] := by
  have hout : resolve quartet.signalMap quartetPulses =
      .ok ((resolve quartet.signalMap quartetPulses).toOption.getD []) := by decide +kernel
  exact ⟨_, hout, phasedAs_of_resolve hout, by decide +kernel⟩

/-! ## Removal -/

/-- With distinct ids, no event that the pass visits is handled. -/
theorem kept_of_ranked {ids : List Nat} (hids : (events.map Event.id).Nodup)
    (h : handledEvents m events = .ok ids) {e : Event} (he : e ∈ events)
    (hranked : (rank e.type).isSome = true) : e.id ∉ ids := by
  intro hmem
  obtain ⟨f, hf, hcause, hid⟩ := exists_of_handled h e.id hmem
  have hfe : f = e := List.inj_on_of_nodup_map hids hf he hid
  subst hfe
  obtain ⟨id, time, kind⟩ := f
  cases kind with
  | pulseStart activity pulse => rcases hcause with h | h <;> cases h
  | resetSoftwarePhase owner => rcases hcause with h | h <;> cases h
  | _ => cases hranked

/-- The handled events of a list are still the handled ones when its phases are resolved, and to
    remove them first or last makes no difference: the phases cannot be resolved for the same reason,
    or the same events are left. -/
theorem resolve_removeEvents {ids : List Nat} (hids : (events.map Event.id).Nodup)
    (h : handledEvents m events = .ok ids) :
    (∀ out, resolve m events = .ok out → handledEvents m out = .ok ids) ∧
    resolve m (removeEvents ids events) = removeEvents ids <$> resolve m events := by
  constructor
  · intro out hout
    rw [← handledEvents_unresolved, unresolved_phases hout, handledEvents_unresolved, h]
  · refine sweep_selected (keepsIds_step m) hids (fun i => i ∉ ids) ?_
    intro e he hranked
    exact decide_eq_true (kept_of_ranked hids h he hranked)

/-- Pulses and a reset among frequency events in software and in hardware; the end of the former
    is listed before its start. -/
def quartetMixed : List Event :=
  let update (oscillator signal : Nat) : FrequencyEvent :=
    ⟨⟨⟨oscillator⟩⟩, [⟨⟨signal⟩⟩], 2e6, none, none, 0⟩
  [quartetPulse 3 2.0 .play 0 (some 0.5) none,
    ⟨9, ⟨(1.0 : Float).toBits⟩, .setFrequencyEnd ⟨⟨5⟩⟩ [⟨⟨0⟩⟩] 2⟩,
    ⟨4, ⟨(1.0 : Float).toBits⟩, .resetSoftwarePhase none⟩,
    ⟨2, ⟨(0.5 : Float).toBits⟩, .setFrequencyStart (update 5 0)⟩,
    ⟨6, ⟨(0.5 : Float).toBits⟩, .setFrequencyStart (update 6 1)⟩,
    quartetPulse 1 0.5 .acquire 2 none (some 0.75),
    ⟨8, ⟨(0.0 : Float).toBits⟩, .initialFrequency (update 6 1)⟩]

/-- Three of the seven events are handled.  With one more pulse, which sets a phase in hardware,
    the phases cannot be resolved, whether the three are there or not. -/
theorem quartet_removed :
    handledEvents quartet.signalMap quartetMixed = .ok [9, 8, 2] ∧
    (∃ out, resolve quartet.signalMap quartetMixed = .ok out ∧
      handledEvents quartet.signalMap out = .ok [9, 8, 2] ∧
      resolve quartet.signalMap (removeEvents [9, 8, 2] quartetMixed) =
        .ok (removeEvents [9, 8, 2] out) ∧ (removeEvents [9, 8, 2] out).length = 4) ∧
    let refused := quartetPulse 7 1.5 .play 1 none (some 0.5) :: quartetMixed
    resolve quartet.signalMap refused =
      .error (.hardwarePhaseSet (quartet.signalMap.display ⟨⟨1⟩⟩)) ∧
    resolve quartet.signalMap (removeEvents [9, 8, 2] refused) =
      .error (.hardwarePhaseSet (quartet.signalMap.display ⟨⟨1⟩⟩)) := by
  have hhandled : handledEvents quartet.signalMap quartetMixed = .ok [9, 8, 2] := by
    decide +kernel
  have hout : resolve quartet.signalMap quartetMixed =
      .ok ((resolve quartet.signalMap quartetMixed).toOption.getD []) := by decide +kernel
  obtain ⟨hsame, hremoved⟩ := resolve_removeEvents (by decide) hhandled
  refine ⟨hhandled, ⟨_, hout, hsame _ hout, ?_, by decide +kernel⟩, ?_⟩
  · rw [hremoved, hout]
    rfl
  · intro refused
    have hrefused : handledEvents quartet.signalMap refused = .ok [9, 8, 2] := by decide +kernel
    have herror : resolve quartet.signalMap refused =
        .error (.hardwarePhaseSet (quartet.signalMap.display ⟨⟨1⟩⟩)) := by decide +kernel
    refine ⟨herror, ?_⟩
    rw [(resolve_removeEvents (by decide) hrefused).2, herror]
    rfl

end PulseTimeline.Phase
