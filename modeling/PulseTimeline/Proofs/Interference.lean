/-
  Signals do not interfere.

  1. **Part** — what concerns a signal comes through either pass as if there were nothing else, and
     as if nothing had an id (`part_written`, `part_phases`).  Between the passes, no pulse and no
     reset is removed (`filter_removeEvents`).

  2. **Two lists** — so two lists that agree on the part that concerns a signal, ids aside, are
     resolved to the same pulses on that signal (`pulsesOn_of_part`).

  3. **Two trees** — experiments that differ only in what is of no concern to a signal agree on that
     part, hence on the pulses on the signal in their timelines (`pulsesOn_of_variant`).
-/
import PulseTimeline.Proofs.Edits
import PulseTimeline.Proofs.Removal

namespace PulseTimeline

/-- The starts of plays, delays and acquisitions on a signal: when, what, and all that is said of
    them, in the order of the list. -/
def pulsesOn (uid : SignalUid) (events : List Event) : List (Seconds × Activity × PulseEvent) :=
  events.filterMap fun e =>
    match e.kind with
    | .pulseStart activity pulse =>
        if pulse.signal = uid then some (e.time, activity, pulse) else none
    | _ => none

/-! ## A part of the events, ids aside -/

/-- The events whose kind passes a test, without their ids. -/
def anonymousPart (p : EventKind → Bool) (events : List Event) : List Event :=
  (events.filter fun e => p e.kind).map Event.anonymous

section Passes

variable {m : SignalMap} (uid : SignalUid) {events out : List Event}

/-- What concerns a signal comes through the frequency pass as if there were nothing else. -/
theorem part_written (hids : (events.map Event.id).Nodup) (hinc : IdsIncrease events)
    (h : Frequency.written m events = .ok out) :
    Frequency.written m (anonymousPart (EventKind.concerns uid) events) =
      .ok (anonymousPart (EventKind.concerns uid) out) := by
  have hpart := sweep_filter (Frequency.separates_frequency m uid) hids h
  have hfollow := idsFollowList_frequency (hinc.filter fun e => e.kind.concerns uid)
  unfold Frequency.written anonymousPart
  rw [sweep_anonymous hfollow (Frequency.quietStep_anonymous m), hpart]
  rfl

/-- What turns on a signal comes through the phase pass as if there were nothing else. -/
theorem part_phases (hids : (events.map Event.id).Nodup) (hinc : IdsIncrease events)
    (h : Phase.resolve m events = .ok out) :
    Phase.resolve m (anonymousPart (EventKind.turns uid) events) =
      .ok (anonymousPart (EventKind.turns uid) out) := by
  have hpart := sweep_filter (Phase.separates_phase m uid) hids h
  have hfollow := idsFollowList_phase (hinc.filter fun e => e.kind.turns uid)
  unfold Phase.resolve anonymousPart
  rw [sweep_anonymous hfollow (Phase.step_anonymous m), hpart]
  rfl

variable {uid}

theorem concerns_of_turns {k : EventKind} (h : k.turns uid = true) : k.concerns uid = true := by
  cases k <;> first | exact h | cases h

/-- What turns on a signal is a part of what concerns it. -/
theorem filter_turns_anonymousPart (events : List Event) :
    (anonymousPart (EventKind.concerns uid) events).filter (fun e => e.kind.turns uid) =
      anonymousPart (EventKind.turns uid) events := by
  unfold anonymousPart
  rw [List.filter_map, List.filter_filter]
  refine congrArg _ (List.filter_congr fun e _ => ?_)
  show (e.kind.turns uid && e.kind.concerns uid) = e.kind.turns uid
  cases hturns : e.kind.turns uid with
  | false => rfl
  | true => rw [concerns_of_turns hturns]; rfl

theorem not_usedUp_of_turns {e : Event} (h : e.kind.turns uid = true) :
    ¬ UsedUp m events e := by
  obtain ⟨id, time, kind⟩ := e
  rintro (hstart | ⟨f, _, _, hchain⟩)
  · cases kind <;> first | (cases h; done) | cases hstart
  · cases kind <;> first | (cases h; done) | cases hchain

/-- No pulse and no reset is removed. -/
theorem filter_removeEvents {ids : List Nat} (hids : (events.map Event.id).Nodup)
    (hends : EndsNameNoEnds events) (h : handledEvents m events = .ok ids) :
    (removeEvents ids events).filter (fun e => e.kind.turns uid) =
      events.filter fun e => e.kind.turns uid := by
  unfold removeEvents
  rw [List.filter_filter]
  refine List.filter_congr fun e he => ?_
  cases hturns : e.kind.turns uid with
  | false => rfl
  | true =>
      have hkeep : e.id ∉ ids := by
        rw [mem_handledEvents hids hends h he]
        exact not_usedUp_of_turns hturns
      simpa using hkeep

/-- The pulses on a signal are among what turns there. -/
theorem pulsesOn_anonymousPart (events : List Event) :
    pulsesOn uid (anonymousPart (EventKind.turns uid) events) = pulsesOn uid events := by
  unfold pulsesOn anonymousPart
  induction events with
  | nil => rfl
  | cons e es ih =>
      cases hturns : e.kind.turns uid with
      | true =>
          rw [List.filter_cons_of_pos (by simpa using hturns), List.map_cons, List.filterMap_cons,
            List.filterMap_cons, ih]
          rfl
      | false =>
          rw [List.filter_cons_of_neg (by simp [hturns]), ih]
          obtain ⟨id, time, kind⟩ := e
          cases kind with
          | pulseStart activity pulse =>
              have hne : pulse.signal ≠ uid := by simpa [EventKind.turns] using hturns
              rw [List.filterMap_cons]
              simp only [if_neg hne]
          | _ => rfl

end Passes

/-! ## Two lists -/

/-- What the pipeline needs to know of a flattened list. -/
structure Flattened (events : List Event) : Prop where
  nodup : (events.map Event.id).Nodup
  increase : IdsIncrease events
  endsNameNoEnds : EndsNameNoEnds events

theorem flattened_of_flatten {x : Experiment} {tick : Float} {o : LoweringOptions}
    {events : List Event} (h : x.flatten tick o = .ok events) : Flattened events :=
  ⟨nodup_ids h, ids_increase h, endsNameNoEnds_flatten h⟩

theorem Flattened.written {m : SignalMap} {events es : List Event} (hflat : Flattened events)
    (h : Frequency.written m events = .ok es) : Flattened es :=
  ⟨nodup_written h hflat.nodup, increase_written h hflat.increase,
    endsNameNoEnds_written h hflat.endsNameNoEnds⟩

/-- What turns on a signal, in the result, is what the phase pass makes of what concerned the
    signal, ids aside, after the frequency pass. -/
theorem turning_of_part (uid : SignalUid) {m : SignalMap} {events out : List Event}
    (hflat : Flattened events) (h : resolveEvents m events = .ok out) :
    ∃ es, Frequency.written m (anonymousPart (EventKind.concerns uid) events) = .ok es ∧
      Phase.resolve m (es.filter fun e => e.kind.turns uid) =
        .ok (anonymousPart (EventKind.turns uid) out) := by
  obtain ⟨es, ids, hwritten, hhandled, hphase⟩ := resolveEvents_ok h
  have hflat' := hflat.written hwritten
  have hids : ((removeEvents ids es).map Event.id).Nodup :=
    hflat'.nodup.sublist (List.filter_sublist.map Event.id)
  have hwrittenPart := part_written uid hflat.nodup hflat.increase hwritten
  refine ⟨anonymousPart (EventKind.concerns uid) es, hwrittenPart, ?_⟩
  have hphases := part_phases uid hids (hflat'.increase.filter _) hphase
  have hkeep : anonymousPart (EventKind.turns uid) (removeEvents ids es) =
      anonymousPart (EventKind.turns uid) es := by
    unfold anonymousPart
    rw [filter_removeEvents hflat'.nodup hflat'.endsNameNoEnds hhandled]
  rw [hkeep] at hphases
  rw [filter_turns_anonymousPart]
  exact hphases

/-- Lists that agree on what concerns a signal, ids aside, are resolved to the same pulses there. -/
theorem pulsesOn_of_part {m : SignalMap} {uid : SignalUid} {events events' out out' : List Event}
    (hflat : Flattened events) (hflat' : Flattened events')
    (hpart : anonymousPart (EventKind.concerns uid) events =
      anonymousPart (EventKind.concerns uid) events')
    (h : resolveEvents m events = .ok out) (h' : resolveEvents m events' = .ok out') :
    pulsesOn uid out = pulsesOn uid out' := by
  obtain ⟨es, hwritten, hphase⟩ := turning_of_part uid hflat h
  obtain ⟨es', hwritten', hphase'⟩ := turning_of_part uid hflat' h'
  rw [hpart, hwritten', Except.ok.injEq] at hwritten
  rw [← hwritten, hphase', Except.ok.injEq] at hphase
  rw [← pulsesOn_anonymousPart, ← hphase, pulsesOn_anonymousPart]

/-! ## Two trees -/

/-- The outline of an experiment is that of its root as a list of children. -/
theorem outline_eq_top (x : Experiment) (expand : Bool) :
    x.outline expand = childOutlines expand x.top 0 none := by
  unfold Experiment.outline Experiment.top
  cases x.root with
  | none => rfl
  | some root =>
      show root.outline expand 0 none = root.outline expand (0 + 0) none ++ []
      rw [List.append_nil, Int.add_zero]

theorem hideChildren_eq_of_edits {uid : SignalUid} {cs cs' : List (Int × Node)}
    (h : Relation.ReflTransGen (Edit uid) cs cs') : hideChildren uid cs = hideChildren uid cs' := by
  induction h with
  | refl => rfl
  | tail _ hedit ih => rw [ih, hideChildren_eq_of_edit hedit]

/-- The scores of two variants agree on the onsets that concern the signal. -/
theorem ownOnsets_score_of_variant {uid : SignalUid} {x x' : Experiment} (hvar : Variant uid x x')
    {expand : Bool} (h : SoundAll (x.outline expand)) (h' : SoundAll (x'.outline expand)) :
    ownOnsets uid (x.score expand) = ownOnsets uid (x'.score expand) := by
  unfold Experiment.score
  rw [outline_eq_top] at h h' ⊢
  rw [outline_eq_top, ownOnsets_append, ownOnsets_append, onsets_hideChildren uid expand _ _ _ h,
    onsets_hideChildren uid expand _ _ _ h', hideChildren_eq_of_edits hvar.edits, hvar.devices]

/-- If two experiments differ only in pulses on other signals, and in frequency settings whose
    oscillators do not modulate the signal, their timelines agree on the pulses on the signal: on
    their order, their instants and all that is said of them. -/
theorem pulsesOn_of_variant {uid : SignalUid} {x x' : Experiment} {d : Diagnostics} {tick : Float}
    {o : LoweringOptions} {out out' : List Event} (hvar : Variant uid x x')
    (h : (x.timeline d tick o).outcome = .ok out)
    (h' : (x'.timeline d tick o).outcome = .ok out') : pulsesOn uid out = pulsesOn uid out' := by
  rw [Experiment.outcome_timeline] at h h'
  obtain ⟨events, hflatten, hresolve⟩ := bind_ok h
  obtain ⟨events', hflatten', hresolve'⟩ := bind_ok h'
  have hmap : x'.signalMap = x.signalMap := by
    unfold Experiment.signalMap
    rw [hvar.signals, hvar.devices, hvar.names]
  have honsets := ownOnsets_score_of_variant hvar (Experiment.flatten_ok hflatten).1
    (Experiment.flatten_ok hflatten').1
  rw [hmap] at hresolve'
  exact pulsesOn_of_part (flattened_of_flatten hflatten) (flattened_of_flatten hflatten')
    (part_flatten hflatten hflatten' honsets) hresolve hresolve'

/-- The example with another frequency in hardware, and without the delay on the signal in
    hardware. -/
def solo : Experiment :=
  { duet with
    root := some ⟨.root, none, [
      (0, .leaf (.initialFrequency [⟨⟨⟨⟨5⟩⟩, .software, [⟨⟨0⟩⟩]⟩, 1e6, none⟩]) none),
      (0, ⟨.sect ⟨⟨7⟩⟩, some 100, [
        (0, .leaf (.play ⟨⟨⟨0⟩⟩, none, none, 0.0, some 0.5, none⟩) (some 20)),
        (20, .leaf (.setFrequency ⟨⟨7⟩⟩ [⟨⟨⟨⟨5⟩⟩, .software, [⟨⟨0⟩⟩]⟩, 2e6, none⟩,
          ⟨⟨⟨⟨6⟩⟩, .hardware, [⟨⟨1⟩⟩]⟩, 4e6, none⟩] 0) (some 10)),
        (30, .leaf (.resetSoftwarePhase none) none),
        (50, .leaf (.acquire ⟨⟨0⟩⟩ none none) (some 50))]⟩)]⟩ }

/-- The timeline of the example without the delay. -/
def soloTimeline : List Event :=
  (solo.timeline ⟨false⟩ 1e-9 ⟨true, 100⟩).outcome.toOption.getD []

/-- What happens on the signal in hardware is not seen on the signal in software. -/
theorem duet_solo : pulsesOn ⟨⟨0⟩⟩ duetTimeline = pulsesOn ⟨⟨0⟩⟩ soloTimeline ∧
    (pulsesOn ⟨⟨0⟩⟩ soloTimeline).length = 2 := by
  have hsolo : (solo.timeline ⟨false⟩ 1e-9 ⟨true, 100⟩).outcome = .ok soloTimeline := by
    decide +kernel
  have hvar : Variant ⟨⟨0⟩⟩ duet solo := by
    refine ⟨rfl, rfl, rfl, ?_⟩
    have hfrequency : SettingEdit ⟨⟨0⟩⟩ [⟨⟨⟨⟨5⟩⟩, .software, [⟨⟨0⟩⟩]⟩, 2e6, none⟩,
        ⟨⟨⟨⟨6⟩⟩, .hardware, [⟨⟨1⟩⟩]⟩, 3e6, none⟩]
        [⟨⟨⟨⟨5⟩⟩, .software, [⟨⟨0⟩⟩]⟩, 2e6, none⟩, ⟨⟨⟨⟨6⟩⟩, .hardware, [⟨⟨1⟩⟩]⟩, 4e6, none⟩] :=
      @SettingEdit.change _ _ [_] [] 4e6 none (by decide)
    refine .head (.inside (.after (.inside (.after (.setFrequency hfrequency))))) ?_
    exact .single (.inside (.after (.inside (.after (.after (.after (.remove rfl)))))))
  exact ⟨pulsesOn_of_variant hvar duet_timeline hsolo, by decide +kernel⟩

end PulseTimeline
