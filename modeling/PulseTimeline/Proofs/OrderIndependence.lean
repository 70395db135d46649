/-
  Resolution does not depend on the order of the list.

  1. **Specification** — `SameFor order r r'`: two outcomes are the same failure, or the same
     events, in `r'` arranged as the list `order` arranges those that survive.

  2. **Removal** — which events are used up is a matter of membership (`usedUp_perm`), so a
     rearranged list keeps the same events, rearranged (`perm_removeEvents`).

  3. **Resolution** — both passes settle every event alike on every order of the list
     (`sweep_perm`), and neither moves an event (`sublist_resolveEvents`).  Together this gives the
     whole (`resolveEvents_order_independent`).
-/
import PulseTimeline.Proofs.Removal

namespace PulseTimeline

/-! ## Outcomes up to arrangement -/

/-- The second outcome is the same failure as the first, or the same events, those of the list
    `order` that survive arranged as they are there. -/
def SameFor (order : List Event) :
    Except TimelineError (List Event) → Except TimelineError (List Event) → Prop
  | .error x, r => r = .error x
  | .ok out, r => ∃ out', r = .ok out' ∧ out'.Perm out ∧
      out'.map Event.id = (order.map Event.id).filter (· ∈ out.map Event.id)

section Rearranged

variable {m : SignalMap} {events events' : List Event}

/-! ## Removal -/

theorem usedUp_perm (hperm : events'.Perm events) (e : Event) :
    UsedUp m events' e ↔ UsedUp m events e := by
  unfold UsedUp
  simp only [hperm.mem_iff]

theorem EndsNameNoEnds.perm (h : EndsNameNoEnds events) (hperm : events'.Perm events) :
    EndsNameNoEnds events' := by
  intro a ha b hb
  exact h a (hperm.mem_iff.mp ha) b (hperm.mem_iff.mp hb)

/-- Of a rearranged list the same events are removed. -/
theorem perm_removeEvents {ids ids' : List Nat} (hids : (events.map Event.id).Nodup)
    (hends : EndsNameNoEnds events) (hperm : events'.Perm events)
    (h : handledEvents m events = .ok ids) (h' : handledEvents m events' = .ok ids') :
    (removeEvents ids' events').Perm (removeEvents ids events) := by
  have hids' : (events'.map Event.id).Nodup := ((hperm.map Event.id).nodup_iff).mpr hids
  have hsame : removeEvents ids' events' = removeEvents ids events' := by
    unfold removeEvents
    refine List.filter_congr fun e he => ?_
    have hmem' := mem_handledEvents hids' (hends.perm hperm) h' he
    have hmem := mem_handledEvents hids hends h (hperm.mem_iff.mp he)
    simp only [hmem', hmem, usedUp_perm hperm]
  rw [hsame]
  exact hperm.filter _

/-! ## Resolution -/

/-- On a rearranged list the frequency pass fails alike, or leaves the same events, rearranged. -/
theorem frequencies_perm (hids : (events.map Event.id).Nodup) (hends : EndsNameNoEnds events)
    (hperm : events'.Perm events) :
    (∃ x, (Frequency.resolve m events).outcome = .error x ∧
      (Frequency.resolve m events').outcome = .error x) ∨
    ∃ rs rs', (Frequency.resolve m events).outcome = .ok rs ∧
      (Frequency.resolve m events').outcome = .ok rs' ∧ rs'.Perm rs ∧ (rs.map Event.id).Nodup := by
  rw [Frequency.outcome_resolve, Frequency.outcome_resolve]
  rcases sweep_perm Frequency.rank .empty (Frequency.keepsIds_quietStep m) hids hperm with
    ⟨x, hx, hx'⟩ | ⟨f, hf, hf'⟩
  · refine .inl ⟨x, ?_, ?_⟩
    · rw [Frequency.written, hx]
      rfl
    · rw [Frequency.written, hx']
      rfl
  · have hsame := unresolved_written hf
    have hmap : (events'.map f).Perm (events.map f) := hperm.map f
    have hids₁ := nodup_written hf hids
    have hends₁ := endsNameNoEnds_written hf hends
    have hknown : ∀ e ∈ events.map f, ∃ b, isHandledStart m e.kind = .ok b := by
      rw [← known_unresolved, hsame, known_unresolved]
      exact known_of_written hf
    obtain ⟨ids, hhandled⟩ := handledEvents_of_known hknown
    obtain ⟨ids', hhandled'⟩ := handledEvents_of_known fun e he => hknown e (hmap.mem_iff.mp he)
    refine .inr ⟨removeEvents ids (events.map f), removeEvents ids' (events'.map f), ?_, ?_,
      perm_removeEvents hids₁ hends₁ hmap hhandled hhandled',
      hids₁.sublist (List.filter_sublist.map Event.id)⟩
    · rw [Frequency.written, hf]
      show (handledEvents m (events.map f) >>= _) = _
      rw [hhandled]
      rfl
    · rw [Frequency.written, hf']
      show (handledEvents m (events'.map f) >>= _) = _
      rw [hhandled']
      rfl

/-- Resolution moves no event and keeps all ids. -/
theorem sublist_resolveEvents {out : List Event} (h : resolveEvents m events = .ok out) :
    (out.map Event.id).Sublist (events.map Event.id) := by
  obtain ⟨es, ids, hwritten, _, hphase⟩ := resolveEvents_ok h
  rw [map_id_of_unresolved (unresolved_phases hphase),
    ← map_id_of_unresolved (unresolved_written hwritten)]
  exact List.filter_sublist.map Event.id

/-- On a rearranged list resolution fails alike, or gives the same events, rearranged. -/
theorem resolveEvents_perm (hids : (events.map Event.id).Nodup) (hends : EndsNameNoEnds events)
    (hperm : events'.Perm events) :
    (∃ x, resolveEvents m events = .error x ∧ resolveEvents m events' = .error x) ∨
    ∃ out out', resolveEvents m events = .ok out ∧ resolveEvents m events' = .ok out' ∧
      out'.Perm out := by
  unfold resolveEvents
  rcases frequencies_perm (m := m) hids hends hperm with
    ⟨x, hx, hx'⟩ | ⟨rs, rs', h, h', hrs, hnodup⟩
  · refine .inl ⟨x, ?_, ?_⟩
    · rw [hx]
      rfl
    · rw [hx']
      rfl
  · rw [h, h']
    rcases sweep_perm Phase.rank .start (Phase.keepsIds_step m) hnodup hrs with
      ⟨x, hx, hx'⟩ | ⟨f, hf, hf'⟩
    · exact .inl ⟨x, hx, hx'⟩
    · exact .inr ⟨rs.map f, rs'.map f, hf, hf', hrs.map f⟩

end Rearranged

/-- For every list with distinct ids in which no frequency end names another one, resolution of a
    rearranged list is the same failure, or the same events, arranged as the rearranged list
    demands.  Flattened experiments are such lists. -/
theorem resolveEvents_order_independent :
    (∀ (m : SignalMap) (events events' : List Event), (events.map Event.id).Nodup →
      EndsNameNoEnds events → events'.Perm events →
        SameFor events' (resolveEvents m events) (resolveEvents m events')) ∧
    ∀ (x : Experiment) (tick : Float) (o : LoweringOptions) (events : List Event),
      x.flatten tick o = .ok events → (events.map Event.id).Nodup ∧ EndsNameNoEnds events := by
  constructor
  · intro m events events' hids hends hperm
    rcases resolveEvents_perm (m := m) hids hends hperm with ⟨x, hx, hx'⟩ | ⟨out, out', h, h', hout⟩
    · rw [hx, hx']
      rfl
    · have hids' : (events'.map Event.id).Nodup := ((hperm.map Event.id).nodup_iff).mpr hids
      have horder := eq_filter_of_sublist (sublist_resolveEvents h') hids'
      have hmem : ∀ i, i ∈ out'.map Event.id ↔ i ∈ out.map Event.id := fun i =>
        (hout.map Event.id).mem_iff
      simp only [hmem] at horder
      rw [h]
      exact ⟨out', h', hout, horder⟩
  · intro x tick o events h
    exact ⟨nodup_ids h, endsNameNoEnds_flatten h⟩

/-- The example with its events listed backwards, every end before its start. -/
theorem duet_backwards :
    ∃ events, duet.flatten 1e-9 ⟨true, 100⟩ = .ok events ∧
      ∃ out, resolveEvents duet.signalMap events.reverse = .ok out ∧ out.Perm duetTimeline ∧
        out.map Event.id =
          (events.reverse.map Event.id).filter (· ∈ duetTimeline.map Event.id) := by
  have htimeline := duet_timeline
  rw [Experiment.outcome_timeline] at htimeline
  obtain ⟨events, hflatten, hresolve⟩ := bind_ok htimeline
  obtain ⟨hids, hends⟩ := resolveEvents_order_independent.2 duet 1e-9 ⟨true, 100⟩ events hflatten
  have hsame := resolveEvents_order_independent.1 duet.signalMap events events.reverse hids hends
    events.reverse_perm
  rw [hresolve] at hsame
  exact ⟨events, hflatten, hsame⟩

end PulseTimeline
