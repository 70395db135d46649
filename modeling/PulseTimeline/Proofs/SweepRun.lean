/-
  What a sweep does to a list of events.

  1. **Visit** — `visit` carries the state of a sweep over the queue, without regard to where the
     events stand in the list.  A sweep is a visit of the queue whose results are put back
     (`sweep_eq`).

  2. **Putting back** — a result stands at the place of its event, and all other places are as they
     were (`getElem?_putBack_of_mem`, `getElem?_putBack_of_notMem`).

  3. **Changes** — a successful sweep changes ranked events by a step each and leaves the others
     alone (`sweep_forall₂`, `sweep_frame`), whatever the ids are.
-/
import Mathlib.Data.List.Forall2
import PulseTimeline.Log
import PulseTimeline.Proofs.SweepOrder

namespace PulseTimeline

variable {σ ε : Type}

/-! ## Visiting the queue -/

/-- Carry a state over events: the last state, and what the step makes of each event. -/
def visit (step : σ → Event → Except ε (σ × Event)) :
    σ → List Event → Except ε (σ × List Event)
  | s, [] => .ok (s, [])
  | s, e :: es => do
      let (s, e) ← step s e
      let (s, es) ← visit step s es
      .ok (s, e :: es)

/-- A visit succeeds step by step. -/
theorem visit_cons_ok {step : σ → Event → Except ε (σ × Event)} {s t : σ} {e : Event}
    {es rs : List Event} :
    visit step s (e :: es) = .ok (t, rs) ↔
      ∃ s' e' rs', step s e = .ok (s', e') ∧ visit step s' es = .ok (t, rs') ∧ rs = e' :: rs' := by
  constructor
  · intro h
    obtain ⟨⟨s', e'⟩, hstep, h⟩ := bind_ok h
    obtain ⟨⟨u, rs'⟩, hrest, h⟩ := bind_ok h
    cases h
    exact ⟨s', e', rs', hstep, hrest, rfl⟩
  · rintro ⟨s', e', rs', hstep, hrest, rfl⟩
    simp only [visit, hstep]
    show (visit step s' es >>= fun r => .ok (r.1, e' :: r.2)) = _
    rw [hrest]
    rfl

/-- A visit of two lists in a row goes on from the state in which the first one ends. -/
theorem visit_append_ok {step : σ → Event → Except ε (σ × Event)} {s t : σ}
    {as bs rs : List Event} :
    visit step s (as ++ bs) = .ok (t, rs) ↔
      ∃ u ra rb, visit step s as = .ok (u, ra) ∧ visit step u bs = .ok (t, rb) ∧ rs = ra ++ rb := by
  induction as generalizing s rs with
  | nil =>
      constructor
      · intro h
        exact ⟨s, [], rs, rfl, h, rfl⟩
      · rintro ⟨u, ra, rb, ha, hb, rfl⟩
        cases ha
        exact hb
  | cons e as ih =>
      constructor
      · intro h
        obtain ⟨s', e', rs', hstep, hrest, rfl⟩ := visit_cons_ok.mp h
        obtain ⟨u, ra, rb, ha, hb, rfl⟩ := ih.mp hrest
        exact ⟨u, e' :: ra, rb, visit_cons_ok.mpr ⟨s', e', ra, hstep, ha, rfl⟩, hb, rfl⟩
      · rintro ⟨u, ra, rb, ha, hb, rfl⟩
        obtain ⟨s', e', ra', hstep, hrest, rfl⟩ := visit_cons_ok.mp ha
        exact visit_cons_ok.mpr ⟨s', e', ra' ++ rb, hstep, ih.mpr ⟨u, ra', rb, hrest, hb, rfl⟩, rfl⟩

/-- Every result of a visit is what the step makes of its event in some state. -/
theorem visit_forall₂ {step : σ → Event → Except ε (σ × Event)} {s t : σ} {es rs : List Event}
    (h : visit step s es = .ok (t, rs)) :
    List.Forall₂ (fun e e' => ∃ u u', step u e = .ok (u', e')) es rs := by
  induction es generalizing s rs with
  | nil => cases h; exact List.Forall₂.nil
  | cons e es ih =>
      obtain ⟨s', e', rs', hstep, hrest, rfl⟩ := visit_cons_ok.mp h
      exact List.Forall₂.cons ⟨s, s', hstep⟩ (ih hrest)

/-- The sweep visits the events in its order and keeps the indices beside the results. -/
theorem runSweep_eq (step : σ → Event → Except ε (σ × Event)) (s : σ) (xs : List Selected) :
    runSweep step s xs =
      (fun r => (xs.map Selected.index).zip r.2) <$> visit step s (xs.map Selected.event) := by
  induction xs generalizing s with
  | nil => rfl
  | cons x xs ih =>
      simp only [runSweep, List.map_cons, visit]
      cases step s x.event with
      | error e => rfl
      | ok p =>
          obtain ⟨s', e'⟩ := p
          show (runSweep step s' xs >>= fun rest => pure ((x.index, e') :: rest)) =
            (fun r => (x.index :: xs.map Selected.index).zip r.2) <$>
              (visit step s' (xs.map Selected.event) >>= fun r => .ok (r.1, e' :: r.2))
          rw [ih s']
          cases visit step s' (xs.map Selected.event) <;> rfl

/-- A sweep visits its queue and puts the results back. -/
theorem sweep_eq (rank : EventType → Option Int) (step : σ → Event → Except ε (σ × Event))
    (init : σ) (events : List Event) :
    sweep rank step init events =
      (fun r => putBack events (((sweepOrder rank events).map Selected.index).zip r.2)) <$>
        visit step init (queue rank events) := by
  simp only [sweep, runSweep_eq, queue]
  cases visit step init ((sweepOrder rank events).map Selected.event) <;> rfl

/-- A sweep that logs has the outcome of the sweep that does not. -/
theorem outcome_sweep (rank : EventType → Option Int) (step : σ → Event → Logged ε (σ × Event))
    (init : σ) (events : List Event) :
    (sweep rank step init events).outcome =
      sweep rank (fun s e => (step s e).outcome) init events := by
  have hrun : ∀ (xs : List Selected) (s : σ), (runSweep step s xs).outcome =
      runSweep (fun s e => (step s e).outcome) s xs := by
    intro xs
    induction xs with
    | nil => intro s; rfl
    | cons x xs ih =>
        intro s
        simp only [runSweep, Logged.outcome_bind, Logged.outcome_pure, ih]
        rfl
  simp only [sweep, Logged.outcome_bind, Logged.outcome_pure, hrun]
  rfl

/-! ## Putting results back -/

/-- Put a result at its place. -/
def putOne (a : Array Event) (r : Nat × Event) : Array Event := a.setIfInBounds r.1 r.2

/-- Results are put to their indices and nowhere else. -/
theorem getElem?_foldl_putOne_of_notMem {rs : List (Nat × Event)} {i : Nat}
    (h : i ∉ rs.map Prod.fst) (a : Array Event) : (rs.foldl putOne a)[i]? = a[i]? := by
  induction rs generalizing a with
  | nil => rfl
  | cons r rs ih =>
      rw [List.map_cons, List.mem_cons, not_or] at h
      rw [List.foldl_cons, ih h.2]
      exact Array.getElem?_setIfInBounds_ne (fun hr => h.1 hr.symm)

theorem getElem?_foldl_putOne_of_mem {rs : List (Nat × Event)} {i : Nat} {e : Event}
    (hnodup : (rs.map Prod.fst).Nodup) (hmem : (i, e) ∈ rs) {a : Array Event} (ha : i < a.size) :
    (rs.foldl putOne a)[i]? = some e := by
  induction rs generalizing a with
  | nil => cases hmem
  | cons r rs ih =>
      rw [List.map_cons, List.nodup_cons] at hnodup
      rw [List.foldl_cons]
      rcases List.mem_cons.mp hmem with rfl | hmem
      · -- No later result is for the same place.
        rw [getElem?_foldl_putOne_of_notMem hnodup.1]
        exact Array.getElem?_setIfInBounds_self_of_lt ha
      · exact ih hnodup.2 hmem (by simpa [putOne] using ha)

/-- An event that was not visited is left as it is. -/
theorem getElem?_putBack_of_notMem (events : List Event) {resolved : List (Nat × Event)}
    {i : Nat} (hi : i ∉ resolved.map Prod.fst) : (putBack events resolved)[i]? = events[i]? := by
  show ((resolved.foldl putOne events.toArray).toList)[i]? = events[i]?
  rw [Array.getElem?_toList, getElem?_foldl_putOne_of_notMem hi, List.getElem?_toArray]

/-- In the place of a visited event stands its result. -/
theorem getElem?_putBack_of_mem {events : List Event} {resolved : List (Nat × Event)} {i : Nat}
    {e : Event} (hnodup : (resolved.map Prod.fst).Nodup) (hmem : (i, e) ∈ resolved)
    (hi : i < events.length) : (putBack events resolved)[i]? = some e := by
  show ((resolved.foldl putOne events.toArray).toList)[i]? = some e
  rw [Array.getElem?_toList]
  exact getElem?_foldl_putOne_of_mem hnodup hmem (by simpa using hi)

theorem length_putBack (events : List Event) (resolved : List (Nat × Event)) :
    (putBack events resolved).length = events.length := by
  have hsize : ∀ a : Array Event, (resolved.foldl putOne a).size = a.size := by
    induction resolved with
    | nil => intro a; rfl
    | cons r rs ih => intro a; rw [List.foldl_cons, ih, putOne, Array.size_setIfInBounds]
  show (resolved.foldl putOne events.toArray).toList.length = events.length
  rw [Array.length_toList, hsize, List.size_toArray]

/-! ## What a sweep changes -/

/-- The places of the sweep, with the results of its visit. -/
theorem mem_zip_index {rank : EventType → Option Int} {events rs : List Event} {i : Nat}
    {e : Event} {r : Int} (hlen : rs.length = (queue rank events).length)
    (he : events[i]? = some e) (hr : rank e.type = some r) :
    ∃ k, ∃ hk : k < rs.length, (queue rank events)[k]? = some e ∧
      (i, rs[k]) ∈ ((sweepOrder rank events).map Selected.index).zip rs := by
  have hsel : (⟨i, e, r⟩ : Selected) ∈ sweepOrder rank events := by
    refine (stableSort_perm _ _).mem_iff.mpr ?_
    have h := selected_of_ranked 0 he hr
    rwa [Nat.zero_add] at h
  obtain ⟨k, hk, hget⟩ := List.mem_iff_getElem.mp hsel
  have hkrs : k < rs.length := by rw [hlen, queue, List.length_map]; exact hk
  refine ⟨k, hkrs, ?_, ?_⟩
  · rw [queue, List.getElem?_map, List.getElem?_eq_getElem hk, hget]
    rfl
  · refine List.mem_iff_getElem.mpr ⟨k, by simp [hk, hkrs], ?_⟩
    rw [List.getElem_zip, List.getElem_map, hget]

/-- A sweep whose visit relates each visited event to its result by `R` relates each ranked event
    of the list to the one that takes its place by `R`, and leaves the others alone. -/
theorem sweep_forall₂ {rank : EventType → Option Int} {step : σ → Event → Except ε (σ × Event)}
    {init : σ} {events out : List Event} {R : Event → Event → Prop}
    (hR : ∀ t rs, visit step init (queue rank events) = .ok (t, rs) →
      List.Forall₂ R (queue rank events) rs)
    (h : sweep rank step init events = .ok out) :
    List.Forall₂ (fun e e' => if (rank e.type).isSome then R e e' else e' = e) events out := by
  rw [sweep_eq] at h
  cases hvisit : visit step init (queue rank events) with
  | error x => rw [hvisit] at h; cases h
  | ok p =>
      obtain ⟨t, rs⟩ := p
      rw [hvisit] at h
      have hout : putBack events (((sweepOrder rank events).map Selected.index).zip rs) = out :=
        Except.ok.inj h
      have hrel := hR t rs hvisit
      have hlen : rs.length = (queue rank events).length := hrel.length_eq.symm
      have hfst : (((sweepOrder rank events).map Selected.index).zip rs).map Prod.fst =
          (sweepOrder rank events).map Selected.index := by
        rw [List.map_fst_zip]
        rw [hlen, queue, List.length_map, List.length_map]
      refine List.forall₂_iff_get.mpr ⟨by rw [← hout, length_putBack], fun i hi hi' => ?_⟩
      have he : events[i]? = some events[i] := List.getElem?_eq_getElem hi
      have ho : out[i]? = some out[i] := List.getElem?_eq_getElem hi'
      simp only [List.get_eq_getElem]
      cases hr : rank events[i].type with
      | none =>
          -- The place of an event without a rank is not among those of the sweep.
          have hnot : i ∉ (sweepOrder rank events).map Selected.index := by
            intro hmem
            obtain ⟨x, hx, rfl⟩ := List.mem_map.mp hmem
            obtain ⟨hget, hrank⟩ := mem_sweepOrder hx
            rw [he, Option.some.injEq] at hget
            rw [hget, hrank] at hr
            cases hr
          have hkeep := getElem?_putBack_of_notMem events (hfst.symm ▸ hnot)
          rw [hout, ho, he] at hkeep
          rw [if_neg (by simp)]
          exact Option.some.inj hkeep
      | some r =>
          obtain ⟨k, hk, hq, hmem⟩ := mem_zip_index hlen he hr
          have hput := getElem?_putBack_of_mem (hfst.symm ▸ nodup_index_sweepOrder rank events)
            hmem hi
          rw [hout, ho] at hput
          rw [if_pos (by simp), Option.some.inj hput]
          obtain ⟨hk', hqk⟩ := List.getElem?_eq_some_iff.mp hq
          have hrk := (List.forall₂_iff_get.mp hrel).2 k hk' hk
          simp only [List.get_eq_getElem, hqk] at hrk
          exact hrk

/-- A successful sweep replaces each ranked event by what some step makes of it. -/
theorem sweep_frame {rank : EventType → Option Int} {step : σ → Event → Except ε (σ × Event)}
    {init : σ} {events out : List Event} (h : sweep rank step init events = .ok out) :
    List.Forall₂ (fun e e' => if (rank e.type).isSome then ∃ s s', step s e = .ok (s', e')
      else e' = e) events out :=
  sweep_forall₂ (fun _ _ hvisit => visit_forall₂ hvisit) h

/-- What no step changes about an event, a sweep does not change about any event of the list. -/
theorem sweep_invariant {β : Type} {g : Event → β} {rank : EventType → Option Int}
    {step : σ → Event → Except ε (σ × Event)} {init : σ} {events out : List Event}
    (hstep : ∀ s e s' e', step s e = .ok (s', e') → g e' = g e)
    (h : sweep rank step init events = .ok out) : out.map g = events.map g := by
  have hrel : List.Forall₂ (fun e e' => g e = g e') events out := by
    refine (sweep_frame h).imp fun e e' hres => ?_
    split at hres
    · obtain ⟨s, s', hs⟩ := hres
      exact (hstep s e s' e' hs).symm
    · rw [hres]
  have hmap : List.Forall₂ (· = ·) (events.map g) (out.map g) :=
    List.forall₂_map_left_iff.mpr (List.forall₂_map_right_iff.mpr hrel)
  exact (List.forall₂_eq_eq_eq ▸ hmap).symm

end PulseTimeline
