/-
  Lists that the frequency pass leaves as they are.

  1. **Settled events** — an event is `Settled` if it is not handled by itself and, where it is played
     or acquired, its signal is known.  Nothing is said of ids or chains, nor of the order of a list.

  2. **What comes out is settled** — the pass removes what is handled and looks up every signal that
     is played or acquired, so its output consists of settled events (`settled_of_resolve`).

  3. **What is settled stays** — the frequency sets that are left concern hardware only, so the sweep
     never gets to know a frequency (`visit_settled`).  It then changes no pulse, nothing is handled,
     and the list comes back as it was (`resolve_eq_self_iff`).

  4. **Fixed points** — the phase pass does not make a settled event unsettled, hence the output of
     the frequency pass stays a fixed point through the phase pass (`resolve_idempotent`).
-/
import PulseTimeline.Proofs.Pipeline

namespace PulseTimeline

/-! ## Settled events -/

/-- Whether the frequency pass is done with an event of this kind: it is not handled by itself, and
    if it is a play or an acquisition, then its signal is known. -/
structure EventKind.Settled (m : SignalMap) (k : EventKind) : Prop where
  unhandled : isHandledStart m k = .ok false
  known : ∀ activity pulse, k = .pulseStart activity pulse → activity ≠ .delay →
    ∃ hardware, m.isHardware pulse.signal = .ok hardware

theorem EventKind.Settled.unresolved {m : SignalMap} {k : EventKind} (h : k.Settled m) :
    k.unresolved.Settled m := by
  refine ⟨by rw [EventKind.isHandledStart_unresolved]; exact h.unhandled, ?_⟩
  intro activity pulse hk hdelay
  cases k with
  | pulseStart activity' pulse' =>
      cases hk
      exact h.known activity pulse' rfl hdelay
  | _ => cases hk

theorem EventKind.Settled.of_unresolved {m : SignalMap} {k : EventKind}
    (h : k.unresolved.Settled m) : k.Settled m := by
  refine ⟨by rw [← EventKind.isHandledStart_unresolved]; exact h.unhandled, ?_⟩
  rintro activity pulse rfl hdelay
  exact h.known activity pulse.unresolved rfl hdelay

/-- What is written on pulses does not matter to whether a list is settled. -/
theorem settled_of_unresolved {m : SignalMap} {es es' : List Event}
    (h : es'.map Event.unresolved = es.map Event.unresolved)
    (hes : ∀ e ∈ es, e.kind.Settled m) : ∀ e ∈ es', e.kind.Settled m := by
  intro e he
  have hmem : e.unresolved ∈ es.map Event.unresolved := h ▸ List.mem_map_of_mem he
  obtain ⟨f, hf, hfe⟩ := List.mem_map.mp hmem
  have hkind : f.kind.unresolved = e.kind.unresolved := congrArg Event.kind hfe
  exact .of_unresolved (hkind ▸ (hes f hf).unresolved)

/-- A sweep whose visit gives every event back as it was leaves the list as it was. -/
theorem sweep_of_still {σ ε : Type} {rank : EventType → Option Int}
    {step : σ → Event → Except ε (σ × Event)} {init after : σ} {events : List Event}
    (h : visit step init (queue rank events) = .ok (after, queue rank events)) :
    sweep rank step init events = .ok events := by
  have hout : ∃ out, sweep rank step init events = .ok out := by
    rw [sweep_eq, h]
    exact ⟨_, rfl⟩
  obtain ⟨out, hout⟩ := hout
  have hrel := sweep_forall₂ (R := fun e e' => e' = e) (fun t rs hvisit => by
    rw [h] at hvisit
    cases hvisit
    exact List.forall₂_same.mpr fun _ _ => rfl) hout
  have heq : List.Forall₂ (· = ·) events out := hrel.imp fun e e' he => by
    split at he <;> exact he.symm
  have hsame : events = out := List.forall₂_eq_eq_eq ▸ heq
  rw [hout, hsame]

namespace Frequency

variable {m : SignalMap}

/-! ## What comes out is settled -/

/-- The signal of a play or an acquisition that the sweep has been over is known. -/
theorem known_of_step {current after : Current} {e e' : Event} {activity : Activity}
    {pulse : PulseEvent} (h : quietStep m current e = .ok (after, e'))
    (hk : e'.kind = .pulseStart activity pulse) :
    ∃ hardware, m.isHardware pulse.signal = .ok hardware := by
  rcases quietStep_cases h with ⟨update, hf, rfl, _⟩ | ⟨_, before, hardware, _, _, hhw, rfl⟩ |
    ⟨_, hp, _, rfl⟩
  · rw [hk] at hf
    cases hf
  · cases hk
    exact ⟨hardware, by rw [signal_annotated]; exact hhw⟩
  · rw [hk] at hp
    cases hp

theorem known_of_written_pulse {events es : List Event} (h : written m events = .ok es) {e : Event}
    (he : e ∈ es) {activity : Activity} {pulse : PulseEvent}
    (hk : e.kind = .pulseStart activity pulse) (hdelay : activity ≠ .delay) :
    ∃ hardware, m.isHardware pulse.signal = .ok hardware := by
  obtain ⟨f, _, hf⟩ := exists_of_forall₂ (sweep_frame h) he
  split at hf
  · obtain ⟨s, s', hstep⟩ := hf
    exact known_of_step hstep hk
  · -- Plays and acquisitions are visited.
    rename_i hunranked
    subst hf
    refine absurd ?_ hunranked
    unfold Event.type
    rw [hk]
    cases activity with
    | play => rfl
    | delay => exact absurd rfl hdelay
    | acquire => rfl

/-- An event that is handled by itself is among the handled ones. -/
theorem mem_handled_of_start {es : List Event} {ids : List Nat} (h : handledEvents m es = .ok ids)
    {e : Event} (he : e ∈ es) (hstart : isHandledStart m e.kind = .ok true) : e.id ∈ ids := by
  obtain ⟨starts, hstarts, h⟩ := bind_ok h
  have hdone : handledEnds es starts = ids := Except.ok.inj h
  rw [← hdone]
  exact mem_handledEnds_of_mem ((handledStarts_ok hstarts e.id).mpr (.inr ⟨e, he, hstart, rfl⟩))

/-- The output of the pass is settled. -/
theorem settled_of_resolve {events out : List Event} (h : (resolve m events).outcome = .ok out) :
    ∀ e ∈ out, e.kind.Settled m := by
  rw [outcome_resolve] at h
  obtain ⟨es, hwritten, h⟩ := bind_ok h
  obtain ⟨ids, hhandled, h⟩ := bind_ok h
  have hremove : removeEvents ids es = out := Except.ok.inj h
  have hstarts : ∀ e ∈ es, ∃ b, isHandledStart m e.kind = .ok b := by
    rw [← known_unresolved, unresolved_written hwritten, known_unresolved]
    exact known_of_written hwritten
  intro e he
  rw [← hremove] at he
  obtain ⟨hmem, hkept⟩ := List.mem_filter.mp he
  refine ⟨?_, fun activity pulse hk hdelay => known_of_written_pulse hwritten hmem hk hdelay⟩
  obtain ⟨b, hb⟩ := hstarts e hmem
  cases b with
  | false => exact hb
  | true => exact absurd (mem_handled_of_start hhandled hmem hb) (by simpa using hkept)

/-! ## What is settled stays -/

/-- The search for a signal in software comes to nothing only if all signals are in hardware. -/
theorem hardware_of_anySoftware {uids : List SignalUid} (h : anySoftware m uids = .ok false) :
    ∀ uid ∈ uids, m.isHardware uid = .ok true := by
  induction uids with
  | nil => exact List.forall_mem_nil _
  | cons uid uids ih =>
      rw [anySoftware] at h
      obtain ⟨hardware, hknown, h⟩ := bind_ok h
      cases hardware with
      | true => exact List.forall_mem_cons.mpr ⟨hknown, ih h⟩
      | false => cases h

theorem hardware_of_settled {k : EventKind} (h : k.Settled m) {update : FrequencyEvent}
    (hf : k.frequency? = some update) : ∀ uid ∈ update.signals, m.isHardware uid = .ok true := by
  have hunhandled := h.unhandled
  cases k <;> cases hf
  · exact hardware_of_anySoftware hunhandled
  · cases hunhandled

/-- As long as no frequency is in effect, a step gives a settled event back as it was, and no
    frequency takes effect. -/
theorem quietStep_settled {current : Current} (hnone : ∀ q, current.get? q = none) {e : Event}
    (h : e.kind.Settled m) (hranked : (rank e.type).isSome = true) :
    ∃ after, quietStep m current e = .ok (after, e) ∧ ∀ q, after.get? q = none := by
  cases hf : e.kind.frequency? with
  | some update =>
      have hhw := hardware_of_settled h hf
      obtain ⟨after, happly⟩ := apply_of_known update.value current fun uid hu => ⟨true, hhw uid hu⟩
      refine ⟨after, by rw [quietStep_frequency hf, happly]; rfl, fun q => ?_⟩
      rw [(apply_ok happly).2 q, if_neg, hnone q]
      rintro ⟨hq, hsoft⟩
      rw [hhw q hq] at hsoft
      cases hsoft
  | none =>
      cases hp : e.kind.pulse? with
      | none => exact ⟨current, quietStep_idle hf hp m current, hnone⟩
      | some p =>
          have hk := EventKind.pulse?_eq_some.mp hp
          have hdelay : p.1 ≠ .delay := by
            intro hdelay
            rw [show rank e.type = rank (.pulseStart p.1) by unfold Event.type; rw [hk]; rfl,
              hdelay] at hranked
            cases hranked
          obtain ⟨hardware, hhw⟩ := h.known p.1 p.2 hk hdelay
          refine ⟨current, ?_, hnone⟩
          rw [quietStep_pulse hk, hhw]
          have hsame : annotated hardware current p.2 = p.2 := by
            unfold annotated
            rw [hnone p.2.signal]
            cases hardware <;> rfl
          show Except.ok (current, e.withPulse p.1 (annotated hardware current p.2)) = _
          rw [hsame]
          unfold Event.withPulse
          rw [← hk]

/-- A visit of settled events gives them back as they were. -/
theorem visit_settled {es : List Event} (hes : ∀ e ∈ es, e.kind.Settled m)
    (hranked : ∀ e ∈ es, (rank e.type).isSome = true) {current : Current}
    (hnone : ∀ q, current.get? q = none) :
    ∃ after, visit (quietStep m) current es = .ok (after, es) := by
  induction es generalizing current with
  | nil => exact ⟨current, rfl⟩
  | cons e es ih =>
      obtain ⟨he, hrest⟩ := List.forall_mem_cons.mp hes
      obtain ⟨hre, hrrest⟩ := List.forall_mem_cons.mp hranked
      obtain ⟨mid, hstep, hmid⟩ := quietStep_settled hnone he hre
      obtain ⟨after, hvisit⟩ := ih hrest hrrest hmid
      exact ⟨after, visit_cons_ok.mpr ⟨mid, e, es, hstep, hvisit, rfl⟩⟩

/-- No event of a settled list is handled. -/
theorem handledEvents_of_settled {es : List Event} (hes : ∀ e ∈ es, e.kind.Settled m) :
    handledEvents m es = .ok [] := by
  obtain ⟨ids, hids⟩ := handledEvents_of_known fun e he => ⟨false, (hes e he).unhandled⟩
  obtain ⟨starts, hstarts, h⟩ := bind_ok hids
  have hdone : handledEnds es starts = ids := Except.ok.inj h
  have hnone : ∀ i ∈ starts, False := by
    intro i hi
    rcases (handledStarts_ok hstarts i).mp hi with hi | ⟨e, he, hstart, _⟩
    · cases hi
    · rw [(hes e he).unhandled] at hstart
      cases hstart
  have hempty : ∀ i ∈ ids, False := by
    rw [← hdone]
    exact handledEnds_induction (fun _ _ _ _ hfalse => hfalse) hnone
  rw [hids, List.eq_nil_iff_forall_not_mem.mpr hempty]

/-- The lists that the pass leaves as they are are those that consist of settled events. -/
theorem resolve_eq_self_iff {es : List Event} :
    (resolve m es).outcome = .ok es ↔ ∀ e ∈ es, e.kind.Settled m := by
  constructor
  · exact settled_of_resolve
  · intro hes
    have hqueued : ∀ e ∈ queue rank es, e.kind.Settled m := fun e he => hes e (mem_queue.mp he).1
    have hranked : ∀ e ∈ queue rank es, (rank e.type).isSome = true :=
      fun e he => (mem_queue.mp he).2
    have hnone : ∀ q, (.empty : Current).get? q = none := fun q => Table.get?_empty q
    obtain ⟨after, hvisit⟩ := visit_settled hqueued hranked hnone
    have hwritten : written m es = .ok es := sweep_of_still hvisit
    rw [outcome_resolve, hwritten]
    show (handledEvents m es >>= fun ids => .ok (removeEvents ids es)) = .ok es
    rw [handledEvents_of_settled hes]
    show Except.ok (es.filter fun e => e.id ∉ []) = Except.ok es
    rw [List.filter_eq_self.mpr fun e _ => by simp]

/-! ## Fixed points -/

/-- The output of the frequency pass is a fixed point of the pass, and so is whatever the phase pass
    makes of it; in particular every timeline is one.  The list may have any ids and chains. -/
theorem resolve_idempotent :
    (∀ (m : SignalMap) (events out : List Event), (resolve m events).outcome = .ok out →
      (resolve m out).outcome = .ok out ∧
      ∀ out', Phase.resolve m out = .ok out' → (resolve m out').outcome = .ok out') ∧
    ∀ (x : Experiment) (d : Diagnostics) (tick : Float) (o : LoweringOptions) (out : List Event),
      (x.timeline d tick o).outcome = .ok out → (resolve x.signalMap out).outcome = .ok out := by
  have hphases : ∀ (m : SignalMap) (events out : List Event),
      (resolve m events).outcome = .ok out → ∀ out', Phase.resolve m out = .ok out' →
        (resolve m out').outcome = .ok out' := by
    intro m events out h out' h'
    exact resolve_eq_self_iff.mpr
      (settled_of_unresolved (unresolved_phases h') (settled_of_resolve h))
  refine ⟨fun m events out h => ⟨?_, hphases m events out h⟩, ?_⟩
  · exact resolve_eq_self_iff.mpr (settled_of_resolve h)
  · intro x d tick o out h
    rw [Experiment.outcome_timeline] at h
    obtain ⟨events, _, hresolve⟩ := bind_ok h
    obtain ⟨rs, hrs, hphase⟩ := bind_ok hresolve
    exact hphases x.signalMap events rs hrs out hphase

/-- Events in no order, on the signals of `duet`: an acquisition has the id of the frequency set in
    software, the frequency set in hardware that of an end, and this end names no event. -/
def strays : List Event :=
  [⟨4, ⟨(3.0 : Float).toBits⟩, .pulseStart .play (.bare ⟨⟨0⟩⟩ none)⟩,
    ⟨2, ⟨(2.0 : Float).toBits⟩, .setFrequencyEnd ⟨⟨5⟩⟩ [⟨⟨0⟩⟩] 1⟩,
    ⟨1, ⟨(1.5 : Float).toBits⟩, .pulseStart .acquire (.bare ⟨⟨0⟩⟩ none)⟩,
    ⟨1, ⟨(1.0 : Float).toBits⟩, .setFrequencyStart ⟨⟨⟨5⟩⟩, [⟨⟨0⟩⟩], 2e6, none, none, 0⟩⟩,
    ⟨7, ⟨(0.75 : Float).toBits⟩, .setFrequencyEnd ⟨⟨6⟩⟩ [⟨⟨1⟩⟩] 99⟩,
    ⟨7, ⟨(0.5 : Float).toBits⟩, .setFrequencyStart ⟨⟨⟨6⟩⟩, [⟨⟨1⟩⟩], 3e6, none, none, 0⟩⟩,
    ⟨5, ⟨(0.25 : Float).toBits⟩, .pulseStart .play (.bare ⟨⟨0⟩⟩ none)⟩]

/-- Four of these events are left, and a second pass leaves all four, also when their phases have
    been resolved in between.  So it does with the timeline of `duet`. -/
theorem strays_settle : ∃ out out', (resolve duet.signalMap strays).outcome = .ok out ∧
    out.length = 4 ∧ (resolve duet.signalMap out).outcome = .ok out ∧
    Phase.resolve duet.signalMap out = .ok out' ∧
    (resolve duet.signalMap out').outcome = .ok out' ∧
    (resolve duet.signalMap duetTimeline).outcome = .ok duetTimeline := by
  have hout : (resolve duet.signalMap strays).outcome =
      .ok ((resolve duet.signalMap strays).outcome.toOption.getD []) := by decide +kernel
  have hphase : Phase.resolve duet.signalMap
      ((resolve duet.signalMap strays).outcome.toOption.getD []) = .ok
        ((Phase.resolve duet.signalMap
          ((resolve duet.signalMap strays).outcome.toOption.getD [])).toOption.getD []) := by
    decide +kernel
  obtain ⟨hagain, hlater⟩ := resolve_idempotent.1 duet.signalMap strays _ hout
  exact ⟨_, _, hout, by decide +kernel, hagain, hphase, hlater _ hphase,
    resolve_idempotent.2 duet ⟨false⟩ 1e-9 ⟨true, 100⟩ duetTimeline duet_timeline⟩

end Frequency

end PulseTimeline
