/-
  When a timeline can be made.

  1. **Specification** — what is asked of an experiment is asked of its sites, one by one.
     `Lowerable`: nodes stand where they may stand, lengths are known where they are needed, and
     there are no more events than allowed.  `Resolvable`: signals and devices are known where they
     are looked up, and no phase is set in hardware.

  2. **Sweeps** — where it does not depend on the state whether a step succeeds, a sweep succeeds if
     and only if every step of it does (`sweep_isOk`).

  3. **Resolution** — hence both passes succeed if and only if they accept every event
     (`resolveEvents_isOk`), even though the second pass sees only what the first one left, and
     the first one looks up some signals twice.

  4. **Sites** — the events of a tree are accepted if and only if its sites are
     (`accepted_layout`).  Together this decides when a timeline exists (`outcome_isOk`).
-/
import PulseTimeline.Proofs.Interference
import PulseTimeline.Proofs.Limit

namespace PulseTimeline

/-! ## What is asked of an experiment -/

/-- What a play or a delay sets the phase of its oscillator to. -/
def NodeKind.phaseSet? : NodeKind → Option Float
  | .play pulse => pulse.phaseSet
  | .delay _ _ phaseSet => phaseSet
  | _ => none

/-- Whether a signal is known. -/
def SignalMap.Knows (m : SignalMap) (uid : SignalUid) : Prop :=
  (m.signals.get? uid).isSome = true

namespace Experiment

/-- The tree can be lowered. -/
structure Lowerable (x : Experiment) (o : LoweringOptions) : Prop where
  /-- Where the end of a node is an event, its length is known. -/
  lengths : ∀ s ∈ x.sites o.expandLoops, s.kind.lasts = true → s.length.isSome = true
  /-- The children of loops are iterations, and iterations are nothing else. -/
  iterations : ∀ s ∈ x.sites o.expandLoops, s.inLoop = s.kind.isIteration
  /-- There are no more events than allowed. -/
  limit : x.eventCount o.expandLoops ≤ o.maxEvents

/-- The events of the tree can be resolved. -/
structure Resolvable (x : Experiment) (expand : Bool) : Prop where
  /-- The signals of oscillators whose frequency is set are known. -/
  oscillators : ∀ s ∈ x.sites expand, ∀ setting ∈ s.kind.settings,
    ∀ uid ∈ setting.oscillator.signals, x.signalMap.Knows uid
  /-- The signals of plays, acquisitions and delays are known. -/
  pulses : ∀ s ∈ x.sites expand, ∀ uid, s.kind.pulseSignal? = some uid → x.signalMap.Knows uid
  /-- No phase is set in hardware. -/
  phases : ∀ s ∈ x.sites expand, ∀ uid, s.kind.pulseSignal? = some uid →
    ∀ signal, x.signalMap.signals.get? uid = some signal → signal.isHardware = true →
      s.kind.phaseSet? = none
  /-- The devices of plays, acquisitions and delays in software are known. -/
  devices : ∀ s ∈ x.sites expand, ∀ uid, s.kind.pulseSignal? = some uid →
    ∀ signal, x.signalMap.signals.get? uid = some signal → signal.isHardware = false →
      (x.signalMap.devices.get? signal.device).isSome = true

end Experiment

/-! ## Lookups -/

section Lookups

variable {m : SignalMap} {uid : SignalUid}

/-- A signal is known if the look-up answers for it. -/
theorem knows_iff : m.Knows uid ↔ ∃ b, m.isHardware uid = .ok b := by
  unfold SignalMap.Knows
  rw [Option.isSome_iff_exists]
  constructor
  · rintro ⟨s, hs⟩
    exact ⟨s.isHardware, SignalMap.isHardware_ok.mpr ⟨s, hs, rfl⟩⟩
  · rintro ⟨b, hb⟩
    obtain ⟨s, hs, _⟩ := SignalMap.isHardware_ok.mp hb
    exact ⟨s, hs⟩

/-- Whether a signal belongs to a readout instrument can be said if its device is known. -/
theorem isReadout_isOk {s : Signal} (hs : m.signals.get? uid = some s) :
    (∃ b, m.isReadout uid = .ok b) ↔ (m.devices.get? s.device).isSome = true := by
  unfold SignalMap.isReadout SignalMap.deviceKind
  rw [SignalMap.signal_ok.mpr hs]
  cases hd : m.devices.get? s.device with
  | none =>
      refine iff_of_false ?_ Bool.false_ne_true
      rintro ⟨b, hb⟩
      obtain ⟨kind, hkind, _⟩ := bind_ok hb
      obtain ⟨s', hs', hkind⟩ := bind_ok hkind
      cases hs'
      rw [hd] at hkind
      cases hkind
  | some kind =>
      refine iff_of_true ⟨kind.isReadout, ?_⟩ rfl
      simp only [bind, Except.bind, hd]
      rfl

/-- Whether the phase of a pulse on a signal can be resolved, if the pulse sets it to `phaseSet`: in
    hardware nothing may be set, and in software the device must be known. -/
def SignalMap.Accepts (m : SignalMap) (uid : SignalUid) (phaseSet : Option Float) : Prop :=
  ∃ s, m.signals.get? uid = some s ∧
    if s.isHardware then phaseSet = none else (m.devices.get? s.device).isSome = true

theorem SignalMap.Accepts.knows {phaseSet : Option Float} (h : m.Accepts uid phaseSet) :
    m.Knows uid := by
  obtain ⟨s, hs, _⟩ := h
  exact Option.isSome_iff_exists.mpr ⟨s, hs⟩

end Lookups

/-- The signal of a pulse, and what the pulse sets its phase to. -/
def EventKind.demand? (k : EventKind) : Option (SignalUid × Option Float) :=
  k.pulse?.map fun p => (p.2.signal, p.2.phaseSet)

/-- Whether both passes accept an event of this kind. -/
structure EventKind.Accepted (m : SignalMap) (k : EventKind) : Prop where
  frequency : ∀ update, k.frequency? = some update → ∀ uid ∈ update.signals, m.Knows uid
  pulse : ∀ q, k.demand? = some q → m.Accepts q.1 q.2

/-! ## Sweeps that cannot fail halfway -/

section Sweeps

variable {σ ε : Type} {step : σ → Event → Except ε (σ × Event)} {P : Event → Prop}

/-- A run is successful if each step is, where success does not depend on the state. -/
theorem visit_isOk (hstep : ∀ s e, (∃ r, step s e = .ok r) ↔ P e) (es : List Event) (s : σ) :
    (∃ r, visit step s es = .ok r) ↔ ∀ e ∈ es, P e := by
  induction es generalizing s with
  | nil => exact iff_of_true ⟨_, rfl⟩ (List.forall_mem_nil _)
  | cons e es ih =>
      rw [List.forall_mem_cons, ← hstep s e]
      constructor
      · rintro ⟨⟨t, rs⟩, h⟩
        obtain ⟨s', e', rs', he, hes, _⟩ := visit_cons_ok.mp h
        exact ⟨⟨_, he⟩, (ih s').mp ⟨_, hes⟩⟩
      · rintro ⟨⟨⟨s', e'⟩, he⟩, hes⟩
        obtain ⟨⟨t, rs⟩, hrest⟩ := (ih s').mpr hes
        exact ⟨_, visit_cons_ok.mpr ⟨s', e', rs, he, hrest, rfl⟩⟩

/-- If the state does not matter to whether a step succeeds, a sweep succeeds if and only if it does
    so on every event that it visits. -/
theorem sweep_isOk (hstep : ∀ s e, (∃ r, step s e = .ok r) ↔ P e) (rank : EventType → Option Int)
    (init : σ) (events : List Event) : (∃ out, sweep rank step init events = .ok out) ↔
      ∀ e ∈ events, (rank e.type).isSome = true → P e := by
  have hqueue : (∀ e ∈ queue rank events, P e) ↔
      ∀ e ∈ events, (rank e.type).isSome = true → P e := by
    simp only [mem_queue, and_imp]
  rw [← hqueue, ← visit_isOk hstep (queue rank events) init, sweep_eq]
  cases visit step init (queue rank events) with
  | error x => exact iff_of_false nofun nofun
  | ok r => exact iff_of_true ⟨_, rfl⟩ ⟨_, rfl⟩

end Sweeps

/-! ## Both passes -/

section Passes

variable {m : SignalMap} {events : List Event}

theorem pulse?_of_frequency? {k : EventKind} {update : FrequencyEvent}
    (h : k.frequency? = some update) : k.pulse? = none := by
  cases k <;> first | rfl | cases h

/-- A step of the frequency pass fails only at an unknown signal. -/
theorem Frequency.quietStep_isOk (current : Frequency.Current) (e : Event) :
    (∃ r, Frequency.quietStep m current e = .ok r) ↔
      (∀ update, e.kind.frequency? = some update → ∀ uid ∈ update.signals, m.Knows uid) ∧
        ∀ q, e.kind.demand? = some q → m.Knows q.1 := by
  unfold EventKind.demand?
  cases hf : e.kind.frequency? with
  | some update =>
      rw [Frequency.quietStep_frequency hf, pulse?_of_frequency? hf]
      constructor
      · rintro ⟨r, h⟩
        obtain ⟨after, happly, _⟩ := bind_ok h
        refine ⟨?_, nofun⟩
        rintro _ ⟨⟩ uid huid
        exact knows_iff.mpr ((Frequency.apply_ok happly).1 uid huid)
      · rintro ⟨hknown, _⟩
        obtain ⟨after, happly⟩ := Frequency.apply_of_known update.value current fun uid huid =>
          knows_iff.mp (hknown update rfl uid huid)
        exact ⟨(after, e), by rw [happly]; rfl⟩
  | none =>
      cases hp : e.kind.pulse? with
      | none =>
          rw [Frequency.quietStep_idle hf hp]
          exact iff_of_true ⟨_, rfl⟩ ⟨nofun, nofun⟩
      | some p =>
          rw [Frequency.quietStep_pulse (EventKind.pulse?_eq_some.mp hp)]
          constructor
          · rintro ⟨r, h⟩
            obtain ⟨hardware, hhw, _⟩ := bind_ok h
            refine ⟨nofun, ?_⟩
            rintro _ ⟨⟩
            exact knows_iff.mpr ⟨hardware, hhw⟩
          · rintro ⟨_, hknown⟩
            obtain ⟨hardware, hhw⟩ := knows_iff.mp (hknown _ rfl)
            exact ⟨_, by rw [hhw]; rfl⟩

/-- The phase pass fails on a pulse for its signal and its absolute phase alone. -/
theorem Phase.resolvePulse_isOk (s : Phase.State) (time : Float) (pulse : PulseEvent) :
    (∃ r, Phase.resolvePulse m s time pulse = .ok r) ↔
      m.Accepts pulse.signal pulse.phaseSet := by
  constructor
  · rintro ⟨⟨after, pulse'⟩, h⟩
    rcases Phase.resolvePulse_ok.mp h with ⟨hhw, hset, _, _⟩ | ⟨hhw, readout, hreadout, _, _⟩
    · obtain ⟨signal, hsignal, hhw⟩ := SignalMap.isHardware_ok.mp hhw
      exact ⟨signal, hsignal, by rwa [if_pos hhw]⟩
    · obtain ⟨signal, hsignal, hhw⟩ := SignalMap.isHardware_ok.mp hhw
      refine ⟨signal, hsignal, ?_⟩
      rw [if_neg (by rw [hhw]; decide)]
      exact (isReadout_isOk hsignal).mp ⟨readout, hreadout⟩
  · rintro ⟨signal, hsignal, haccept⟩
    cases hhw : signal.isHardware with
    | true =>
        rw [if_pos hhw] at haccept
        have hknown := SignalMap.isHardware_ok.mpr ⟨signal, hsignal, hhw⟩
        exact ⟨_, Phase.resolvePulse_ok.mpr (.inl ⟨hknown, haccept, rfl, rfl⟩)⟩
    | false =>
        rw [if_neg (by rw [hhw]; decide)] at haccept
        have hknown := SignalMap.isHardware_ok.mpr ⟨signal, hsignal, hhw⟩
        obtain ⟨readout, hreadout⟩ := (isReadout_isOk hsignal).mpr haccept
        exact ⟨_, Phase.resolvePulse_ok.mpr (.inr ⟨hknown, readout, hreadout, rfl, rfl⟩)⟩

/-- A step of the phase pass fails only at a pulse that is not accepted. -/
theorem Phase.step_isOk (s : Phase.State) (e : Event) : (∃ r, Phase.step m s e = .ok r) ↔
    ∀ q, e.kind.demand? = some q → m.Accepts q.1 q.2 := by
  unfold EventKind.demand?
  cases hp : e.kind.pulse? with
  | some p =>
      rw [Phase.step_pulse (EventKind.pulse?_eq_some.mp hp)]
      constructor
      · rintro ⟨r, h⟩
        obtain ⟨r', hres, _⟩ := bind_ok h
        rintro _ ⟨⟩
        exact (Phase.resolvePulse_isOk s e.time.toFloat p.2).mp ⟨r', hres⟩
      · intro haccept
        obtain ⟨r, hres⟩ := (Phase.resolvePulse_isOk s e.time.toFloat p.2).mpr (haccept _ rfl)
        exact ⟨_, by rw [hres]; rfl⟩
  | none =>
      cases hr : e.kind.isReset with
      | true =>
          rw [Phase.step_reset hr]
          exact iff_of_true ⟨_, rfl⟩ nofun
      | false =>
          rw [Phase.step_idle hr hp]
          exact iff_of_true ⟨_, rfl⟩ nofun

/-- The frequency pass leaves alone what the phase pass asks of a pulse. -/
theorem demand_written {es : List Event} (h : Frequency.written m events = .ok es) :
    es.map (fun e => e.kind.demand?) = events.map fun e => e.kind.demand? := by
  refine sweep_invariant ?_ h
  intro current e after e' hstep
  rcases Frequency.quietStep_cases hstep with ⟨_, _, rfl, _⟩ | ⟨_, _, hardware, hk, _, _, rfl⟩ |
    ⟨_, _, _, rfl⟩
  · rfl
  · rw [hk]
    cases hardware <;> rfl
  · rfl

/-- What updates a frequency is ranked by the frequency pass. -/
theorem frequencyRank_of_frequency? {e : Event} {update : FrequencyEvent}
    (h : e.kind.frequency? = some update) : (Frequency.rank e.type).isSome = true := by
  obtain ⟨id, time, kind⟩ := e
  cases kind <;> first | rfl | cases h

/-- What makes a demand is ranked by the phase pass. -/
theorem phaseRank_of_demand? {e : Event} {q : SignalUid × Option Float}
    (h : e.kind.demand? = some q) : (Phase.rank e.type).isSome = true := by
  obtain ⟨id, time, kind⟩ := e
  cases kind <;> first | rfl | cases h

/-- What makes a demand is not removed between the passes. -/
theorem not_usedUp_of_demand? {e : Event} {q : SignalUid × Option Float}
    (h : e.kind.demand? = some q) : ¬ UsedUp m events e := by
  have hturns : e.kind.turns q.1 = true := by
    obtain ⟨p, hp, rfl⟩ := Option.map_eq_some_iff.mp h
    rw [EventKind.pulse?_eq_some.mp hp]
    exact decide_eq_true rfl
  exact not_usedUp_of_turns hturns

/-- Events with distinct ids, of which no frequency end names another one, can be resolved if and
    only if both passes accept each of them. -/
theorem resolveEvents_isOk (hids : (events.map Event.id).Nodup) (hends : EndsNameNoEnds events) :
    (∃ out, resolveEvents m events = .ok out) ↔ ∀ e ∈ events, e.kind.Accepted m := by
  have hwritten_iff := sweep_isOk (Frequency.quietStep_isOk (m := m)) Frequency.rank .empty events
  constructor
  · rintro ⟨out, h⟩
    obtain ⟨es, ids, hwritten, hhandled, hphase⟩ := resolveEvents_ok h
    have hknown := hwritten_iff.mp ⟨es, hwritten⟩
    have haccept := (sweep_isOk (Phase.step_isOk (m := m)) Phase.rank .start _).mp ⟨out, hphase⟩
    intro e he
    refine ⟨fun update hf => (hknown e he (frequencyRank_of_frequency? hf)).1 update hf,
      fun q hq => ?_⟩
    -- The pulse is still there after the first pass, and has not been removed.
    have hmem : some q ∈ es.map fun e => e.kind.demand? := by
      rw [demand_written hwritten, ← hq]
      exact List.mem_map_of_mem he
    obtain ⟨e', he', hq'⟩ := List.mem_map.mp hmem
    have hkept : e' ∈ removeEvents ids es := by
      refine List.mem_filter.mpr ⟨he', decide_eq_true ?_⟩
      rw [mem_handledEvents (nodup_written hwritten hids) (endsNameNoEnds_written hwritten hends)
        hhandled he']
      exact not_usedUp_of_demand? hq'
    exact haccept e' hkept (phaseRank_of_demand? hq') q hq'
  · intro haccept
    obtain ⟨es, hwritten⟩ := hwritten_iff.mpr fun e he _ =>
      ⟨(haccept e he).frequency, fun q hq => ((haccept e he).pulse q hq).knows⟩
    have hknown : ∀ e ∈ es, ∃ b, isHandledStart m e.kind = .ok b := by
      rw [← known_unresolved, unresolved_written hwritten, known_unresolved]
      exact known_of_written hwritten
    obtain ⟨ids, hhandled⟩ := handledEvents_of_known hknown
    have hphase := (sweep_isOk (Phase.step_isOk (m := m)) Phase.rank .start
      (removeEvents ids es)).mpr fun e' he' _ q hq => ?_
    · obtain ⟨out, hout⟩ := hphase
      refine ⟨out, ?_⟩
      have hresolve : (Frequency.resolve m events).outcome = .ok (removeEvents ids es) := by
        rw [Frequency.outcome_resolve, Frequency.written, hwritten]
        show (handledEvents m es >>= _) = _
        rw [hhandled]
        rfl
      unfold resolveEvents
      rw [hresolve]
      exact hout
    · have hmem : some q ∈ events.map fun e => e.kind.demand? := by
        rw [← demand_written hwritten, ← hq]
        exact List.mem_map_of_mem (List.mem_filter.mp he').1
      obtain ⟨e, he, heq⟩ := List.mem_map.mp hmem
      exact (haccept e he).pulse q heq

end Passes

/-! ## Sites -/

/-- Whether both passes accept what a node of this kind says. -/
structure NodeKind.Accepted (m : SignalMap) (kind : NodeKind) : Prop where
  settings : ∀ setting ∈ kind.settings, ∀ uid ∈ setting.oscillator.signals, m.Knows uid
  pulse : ∀ uid, kind.pulseSignal? = some uid → m.Accepts uid kind.phaseSet?

/-- Whether both passes accept all onsets of items. -/
def AcceptedAll (m : SignalMap) (is : List Item) : Prop := ∀ q ∈ onsetsAll is, q.2.Accepted m

section Items

variable {m : SignalMap}

/-- An event that neither sets a frequency nor starts a pulse is accepted. -/
theorem EventKind.accepted_silent {k : EventKind} (hf : k.frequency? = none)
    (hq : k.demand? = none) : k.Accepted m := by
  refine ⟨fun update h => ?_, fun q h => ?_⟩
  · rw [hf] at h
    cases h
  · rw [hq] at h
    cases h

/-- No end makes a demand. -/
theorem EventKind.accepted_end {k : EventKind} (h : k.chain?.isSome = true) : k.Accepted m := by
  refine EventKind.accepted_silent ?_ ?_ <;> cases k <;> first | rfl | cases h

/-- A play demands of its own signal what its absolute phase needs. -/
theorem EventKind.accepted_pulse {activity : Activity} {pulse : PulseEvent} :
    (EventKind.pulseStart activity pulse).Accepted m ↔ m.Accepts pulse.signal pulse.phaseSet :=
  ⟨fun h => h.pulse _ rfl, fun h => ⟨nofun, fun _ hq => Option.some.inj hq ▸ h⟩⟩

/-- A frequency update demands that its signals are known. -/
theorem EventKind.accepted_frequency {k : EventKind} {update : FrequencyEvent}
    (hk : k.frequency? = some update) : k.Accepted m ↔ ∀ uid ∈ update.signals, m.Knows uid := by
  have hq : k.demand? = none := congrArg (Option.map _) (pulse?_of_frequency? hk)
  constructor
  · exact fun h => h.frequency update hk
  · refine fun h => ⟨fun _ hupdate => ?_, fun q hsome => ?_⟩
    · rw [hk] at hupdate
      cases hupdate
      exact h
    · rw [hq] at hsome
      cases hsome

/-- Ends are accepted anyway. -/
theorem accepted_onsetsOf {events : List Event} :
    (∀ e ∈ onsetsOf events, e.kind.Accepted m) ↔ ∀ e ∈ events, e.kind.Accepted m := by
  unfold onsetsOf
  rw [List.forall_mem_filter]
  refine forall₂_congr fun e _ => ?_
  cases hchain : e.kind.chain? with
  | none => exact ⟨fun h => h rfl, fun h _ => h⟩
  | some chain => exact iff_of_true nofun (EventKind.accepted_end (by rw [hchain]; rfl))

theorem acceptedAll_nil : AcceptedAll m [] := List.forall_mem_nil _

theorem acceptedAll_append {as bs : List Item} :
    AcceptedAll m (as ++ bs) ↔ AcceptedAll m as ∧ AcceptedAll m bs := by
  unfold AcceptedAll
  rw [onsetsAll_append, List.forall_mem_append]

theorem acceptedAll_span {start stop : Int} {what : Lasting} {inside : List Item} :
    AcceptedAll m [.span start stop what inside] ↔
      what.first.Accepted m ∧ AcceptedAll m inside := by
  unfold AcceptedAll
  rw [onsetsAll, Item.onsets, onsetsAll, List.append_nil, List.forall_mem_cons]

theorem acceptedAll_point {time : Int} {what : Momentary} :
    AcceptedAll m [.point time what] ↔ what.kind.Accepted m := by
  unfold AcceptedAll
  rw [onsetsAll, Item.onsets, onsetsAll, List.append_nil, List.forall_mem_singleton]

/-- What is asked of items is asked of each of them. -/
theorem acceptedAll_iff {is : List Item} : AcceptedAll m is ↔ ∀ i ∈ is, AcceptedAll m [i] := by
  induction is with
  | nil => exact iff_of_true acceptedAll_nil (List.forall_mem_nil _)
  | cons i is ih =>
      have hcons : i :: is = [i] ++ is := rfl
      rw [List.forall_mem_cons, hcons, acceptedAll_append, ih]

theorem acceptedAll_map {α : Type} {item : α → Item} {as : List α} :
    AcceptedAll m (as.map item) ↔ ∀ a ∈ as, AcceptedAll m [item a] := by
  rw [acceptedAll_iff, List.forall_mem_map]

theorem acceptedAll_resetItems (devices : List Device) :
    AcceptedAll m (Experiment.resetItems devices) := by
  refine acceptedAll_iff.mpr fun i hi => ?_
  -- Every initial reset is a point, and the passes have nothing to look up for it.
  obtain ⟨d, _, hd⟩ := List.mem_filterMap.mp hi
  split at hd
  · split at hd
    · cases hd
      exact acceptedAll_point.mpr (EventKind.accepted_silent rfl rfl)
    · cases hd
  · cases hd

namespace NodeKind

variable {kind : NodeKind}

/-- A node without settings and without a pulse is always accepted. -/
theorem accepted_silent (hsettings : kind.settings = []) (hsignal : kind.pulseSignal? = none) :
    kind.Accepted m := by
  refine ⟨?_, fun uid h => ?_⟩
  · rw [hsettings]
    exact List.forall_mem_nil _
  · rw [hsignal] at h
    cases h

/-- A node with a pulse is accepted with its pulse. -/
theorem accepted_pulse {uid : SignalUid} (hsettings : kind.settings = [])
    (hsignal : kind.pulseSignal? = some uid) :
    kind.Accepted m ↔ m.Accepts uid kind.phaseSet? := by
  constructor
  · exact fun h => h.pulse uid hsignal
  · refine fun h => ⟨?_, fun uid' h' => ?_⟩
    · rw [hsettings]
      exact List.forall_mem_nil _
    · rw [hsignal] at h'
      cases h'
      exact h

/-- A node with settings is accepted if their signals are known. -/
theorem accepted_settings (hsignal : kind.pulseSignal? = none) : kind.Accepted m ↔
    ∀ setting ∈ kind.settings, ∀ uid ∈ setting.oscillator.signals, m.Knows uid := by
  refine ⟨Accepted.settings, fun h => ⟨h, fun uid h' => ?_⟩⟩
  rw [hsignal] at h'
  cases h'

/-- The items of a node that says nothing by itself, around what it holds. -/
theorem accepted_cover {start stop : Int} {what : Lasting} {inside : List Item}
    (hwhat : what.first.Accepted m) (hkind : kind.Accepted m) (hholds : kind.holds = true) :
    AcceptedAll m [.span start stop what inside] ↔
      kind.Accepted m ∧ (kind.holds = true → AcceptedAll m inside) := by
  rw [acceptedAll_span, and_iff_right hwhat, and_iff_right hkind]
  exact ⟨fun h _ => h, fun h => h hholds⟩

/-- The span of a play, an acquisition or a delay. -/
theorem accepted_span {start stop : Int} {activity : Activity} {pulse : PulseEvent}
    {inside : Prop} (hsettings : kind.settings = []) (hholds : kind.holds = false)
    (hsignal : kind.pulseSignal? = some pulse.signal) (hset : kind.phaseSet? = pulse.phaseSet) :
    AcceptedAll m [.span start stop (.pulse activity pulse) []] ↔
      kind.Accepted m ∧ (kind.holds = true → inside) := by
  have hpulse : AcceptedAll m [.span start stop (.pulse activity pulse) []] ↔
      m.Accepts pulse.signal pulse.phaseSet :=
    acceptedAll_span.trans ((and_iff_left acceptedAll_nil).trans EventKind.accepted_pulse)
  rw [hpulse, accepted_pulse hsettings hsignal, hset, hholds]
  exact (and_iff_left nofun).symm

/-- The items of frequency settings. -/
theorem accepted_tuning {item : FrequencySetting → Item} {settings : List FrequencySetting}
    {inside : Prop} (hsettings : kind.settings = settings) (hholds : kind.holds = false)
    (hsignal : kind.pulseSignal? = none)
    (hitem : ∀ s, AcceptedAll m [item s] ↔ ∀ uid ∈ s.oscillator.signals, m.Knows uid) :
    AcceptedAll m (settings.map item) ↔ kind.Accepted m ∧ (kind.holds = true → inside) := by
  rw [acceptedAll_map, accepted_settings hsignal, hsettings, hholds, and_iff_left nofun]
  simp only [hitem]

/-- The items of a node whose end is known, if it has one, are accepted if and only if the node is
    and what it holds. -/
theorem accepted_items {length : Option Int} (h : kind.lasts = true → length.isSome = true)
    (start : Int) (owner : Option SectionUid) (inside : List Item) :
    AcceptedAll m (kind.items length start owner inside) ↔
      kind.Accepted m ∧ (kind.holds = true → AcceptedAll m inside) := by
  cases kind with
  | root =>
      rw [and_iff_right (accepted_silent rfl rfl)]
      exact ⟨fun h _ => h, fun h => h rfl⟩
  | sect _ | loop _ _ | iteration _ _ _ =>
      obtain ⟨ticks, rfl⟩ := Option.isSome_iff_exists.mp (h rfl)
      exact accepted_cover (EventKind.accepted_silent rfl rfl) (accepted_silent rfl rfl) rfl
  | play _ | acquire _ _ _ | delay _ _ _ =>
      obtain ⟨ticks, rfl⟩ := Option.isSome_iff_exists.mp (h rfl)
      exact accepted_span rfl rfl rfl rfl
  | setFrequency _ settings _ =>
      obtain ⟨ticks, rfl⟩ := Option.isSome_iff_exists.mp (h rfl)
      refine accepted_tuning rfl rfl rfl fun s => ?_
      rw [acceptedAll_span, and_iff_left acceptedAll_nil]
      exact EventKind.accepted_frequency (k := .setFrequencyStart _) rfl
  | initialFrequency settings =>
      refine accepted_tuning rfl rfl rfl fun s => ?_
      rw [acceptedAll_point]
      exact EventKind.accepted_frequency (k := .initialFrequency _) rfl
  | resetSoftwarePhase _ | resetHardwarePhase _ =>
      refine iff_of_true ?_ ⟨accepted_silent rfl rfl, nofun⟩
      exact acceptedAll_point.mpr (EventKind.accepted_silent rfl rfl)

end NodeKind

mutual

/-- The outline of a tree whose sites are well placed is accepted if and only if they are. -/
theorem Node.accepted_layout (expand : Bool) : ∀ (n : Node) (inLoop : Bool) (start : Int)
    (owner : Option SectionUid), (∀ s ∈ n.sites expand inLoop, s.WellPlaced) →
      (AcceptedAll m (n.layout expand inLoop start owner) ↔
        ∀ s ∈ n.sites expand inLoop, s.kind.Accepted m)
  | ⟨kind, length, children⟩, inLoop, start, owner, h => by
      rw [Node.sites, List.forall_mem_cons] at h
      obtain ⟨⟨hresolved, hnested⟩, hchildren⟩ := h
      rw [Node.layout, Node.sites, List.forall_mem_cons, kind.placed_of_nested hnested,
        NodeKind.accepted_items hresolved]
      refine and_congr_right fun _ => ?_
      by_cases hholds : kind.holds = true
      · rw [if_pos hholds] at hchildren ⊢
        rw [accepted_childLayouts expand children kind.isLoop start _ hchildren]
        exact ⟨fun hall => hall hholds, fun hall _ => hall⟩
      · rw [if_neg hholds]
        exact iff_of_true (fun htrue => absurd htrue hholds) (List.forall_mem_nil _)
termination_by structural n => n

theorem accepted_childLayouts (expand : Bool) : ∀ (children : List (Int × Node)) (inLoop : Bool)
    (start : Int) (owner : Option SectionUid),
    (∀ s ∈ childSites expand children inLoop, s.WellPlaced) →
      (AcceptedAll m (childLayouts expand children inLoop start owner) ↔
        ∀ s ∈ childSites expand children inLoop, s.kind.Accepted m)
  | [], inLoop, start, owner, h => iff_of_true acceptedAll_nil (List.forall_mem_nil _)
  | (offset, child) :: children, inLoop, start, owner, h => by
      rw [childSites, List.forall_mem_append] at h
      obtain ⟨hchild, hrest⟩ := h
      rw [childLayouts, childSites, acceptedAll_append, List.forall_mem_append,
        Node.accepted_layout expand child inLoop (addTicks start offset) owner hchild,
        goesOn_of_wellPlaced hchild]
      refine and_congr_right fun _ => ?_
      by_cases hgoes : (expand || !inLoop) = true
      · rw [if_pos hgoes] at hrest ⊢
        rw [if_pos hgoes]
        exact accepted_childLayouts expand children inLoop start owner hrest
      · rw [if_neg hgoes, if_neg hgoes]
        exact iff_of_true acceptedAll_nil (List.forall_mem_nil _)
termination_by structural children => children

end

end Items

/-! ## Experiments -/

namespace Experiment

variable {x : Experiment}

/-- The places of what can be lowered are well formed. -/
theorem wellPlaced_of_lowerable {o : LoweringOptions} (h : x.Lowerable o) :
    ∀ s ∈ x.sites o.expandLoops, s.WellPlaced :=
  fun s hs => ⟨h.lengths s hs, h.iterations s hs⟩

/-- Where all sites are well placed, all that they count for is emitted. -/
theorem emitted_eq {expand : Bool} (h : ∀ s ∈ x.sites expand, s.WellPlaced) :
    x.emitted expand = x.eventCount expand := by
  rw [emitted_of_sound ((x.sound_outline expand).mpr h), x.size_outline expand h]

/-- The tree can be flattened if and only if it can be lowered. -/
theorem flatten_isOk {tick : Float} {o : LoweringOptions} :
    (∃ events, x.flatten tick o = .ok events) ↔ x.Lowerable o := by
  constructor
  · rintro ⟨events, h⟩
    have hplaced := (x.sound_outline o.expandLoops).mp (flatten_ok h).1
    refine ⟨fun s hs => (hplaced s hs).resolved, fun s hs => (hplaced s hs).nested, ?_⟩
    rw [← emitted_eq hplaced]
    refine Nat.le_of_not_lt fun hfull => ?_
    rw [flatten_of_full hfull] at h
    cases h
  · intro h
    have hsound := (x.sound_outline o.expandLoops).mpr (wellPlaced_of_lowerable h)
    exact ⟨_, flatten_of_sound hsound ((x.emitted_le _).trans h.limit)⟩

/-- The flattened experiment is the initial resets and all events that the sites count for. -/
theorem length_flatten {tick : Float} {o : LoweringOptions} {events : List Event}
    (h : x.flatten tick o = .ok events) :
    events.length = (initialResets x.devices).length + x.eventCount o.expandLoops := by
  have hlower := flatten_isOk.mp ⟨events, h⟩
  rw [flatten_of_room ((x.emitted_le _).trans hlower.limit)] at h
  rw [length_flattenFreely h, emitted_eq (wellPlaced_of_lowerable hlower)]

/-- What is asked of the sites for their events to be resolved, kind by kind. -/
theorem resolvable_iff {expand : Bool} :
    x.Resolvable expand ↔ ∀ s ∈ x.sites expand, s.kind.Accepted x.signalMap := by
  constructor
  · intro h s hs
    refine ⟨h.oscillators s hs, fun uid huid => ?_⟩
    obtain ⟨signal, hsignal⟩ := Option.isSome_iff_exists.mp (h.pulses s hs uid huid)
    refine ⟨signal, hsignal, ?_⟩
    cases hhw : signal.isHardware with
    | true => exact h.phases s hs uid huid signal hsignal hhw
    | false => exact h.devices s hs uid huid signal hsignal hhw
  · intro h
    have hpulse : ∀ s ∈ x.sites expand, ∀ uid, s.kind.pulseSignal? = some uid →
        ∀ signal, x.signalMap.signals.get? uid = some signal →
          if signal.isHardware then s.kind.phaseSet? = none
          else (x.signalMap.devices.get? signal.device).isSome = true := by
      intro s hs uid huid signal hsignal
      obtain ⟨signal', hsignal', haccept⟩ := (h s hs).pulse uid huid
      rw [hsignal'] at hsignal
      cases hsignal
      exact haccept
    refine ⟨fun s hs => (h s hs).settings, fun s hs uid huid => ((h s hs).pulse uid huid).knows,
      fun s hs uid huid signal hsignal hhw => ?_, fun s hs uid huid signal hsignal hhw => ?_⟩
    · have haccept := hpulse s hs uid huid signal hsignal
      rwa [hhw] at haccept
    · have haccept := hpulse s hs uid huid signal hsignal
      rwa [hhw] at haccept

/-- The events of a flattened experiment are accepted if and only if its sites are. -/
theorem accepted_flatten {tick : Float} {o : LoweringOptions} {events : List Event}
    (h : x.flatten tick o = .ok events) :
    (∀ e ∈ events, e.kind.Accepted x.signalMap) ↔ x.Resolvable o.expandLoops := by
  have hplaced := wellPlaced_of_lowerable (flatten_isOk.mp ⟨events, h⟩)
  have hevents : (∀ e ∈ events, e.kind.Accepted x.signalMap) ↔
      AcceptedAll x.signalMap (x.score o.expandLoops) := by
    have honsets := onsets_eventsAll tick (x.score o.expandLoops) 0
      (startsAll (x.score o.expandLoops))
    rw [← (flatten_ok h).2] at honsets
    calc (∀ e ∈ events, e.kind.Accepted x.signalMap)
        ↔ ∀ e ∈ onsetsOf events, e.kind.Accepted x.signalMap := accepted_onsetsOf.symm
      _ ↔ ∀ c ∈ (onsetsOf events).map Event.content, c.2.Accepted x.signalMap := by
          rw [List.forall_mem_map]
          rfl
      _ ↔ ∀ c ∈ (onsetsAll (x.score o.expandLoops)).map (stampOnset tick),
            c.2.Accepted x.signalMap := by rw [honsets]
      _ ↔ AcceptedAll x.signalMap (x.score o.expandLoops) := List.forall_mem_map
  rw [hevents, resolvable_iff, score, acceptedAll_append,
    and_iff_right (acceptedAll_resetItems x.devices)]
  unfold outline sites at *
  cases hroot : x.root with
  | none => exact iff_of_true acceptedAll_nil (List.forall_mem_nil _)
  | some root =>
      rw [hroot] at hplaced
      show AcceptedAll _ (root.outline o.expandLoops 0 none) ↔ _
      rw [root.outline_eq]
      exact root.accepted_layout o.expandLoops false 0 none hplaced

/-- The events of a flattened experiment can be resolved if and only if its tree says so. -/
theorem resolve_isOk {tick : Float} {o : LoweringOptions} {events : List Event}
    (h : x.flatten tick o = .ok events) :
    (∃ out, resolveEvents x.signalMap events = .ok out) ↔ x.Resolvable o.expandLoops :=
  (resolveEvents_isOk (nodup_ids h) (endsNameNoEnds_flatten h)).trans (accepted_flatten h)

/-- The experiment has a timeline if and only if its tree can be lowered and its events resolved. -/
theorem outcome_isOk (x : Experiment) (d : Diagnostics) (tick : Float) (o : LoweringOptions) :
    (∃ events, (x.timeline d tick o).outcome = .ok events) ↔
      x.Lowerable o ∧ x.Resolvable o.expandLoops := by
  rw [x.outcome_timeline d tick o]
  constructor
  · rintro ⟨out, h⟩
    obtain ⟨events, hflatten, hresolve⟩ := bind_ok h
    exact ⟨flatten_isOk.mp ⟨events, hflatten⟩, (resolve_isOk hflatten).mp ⟨out, hresolve⟩⟩
  · rintro ⟨hlower, hresolvable⟩
    obtain ⟨events, hflatten⟩ := flatten_isOk.mpr hlower
    rw [hflatten]
    exact (resolve_isOk hflatten).mpr hresolvable

end Experiment

end PulseTimeline
