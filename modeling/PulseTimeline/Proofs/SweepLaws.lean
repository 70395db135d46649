/-
  Laws of sweeps over lists whose ids say who is who.

  1. **By id** — with distinct ids an event finds its result by its id (`sweep_eq_map`).  The result
     of a sweep is then the list with every event settled, and since the queue does not depend on
     the order of the list, neither does the result for an event (`sweep_perm`).  Each event becomes
     what the step makes of it in the state after all events before it (`sweep_result`).

  2. **Parts** — a sweep of a part of the list gives that part of the whole result, if a visit of the
     part does so (`sweep_part`).  A step `Separates` a part of the events if the other events do not
     touch what the part sees of the state; then this is the case (`sweep_filter`).  If the part
     holds all events that are visited, the two sweeps also fail alike (`sweep_selected`).

  3. **Without ids** — where ids increase along the list within each rank, they settle no tie that
     the order of the list would not settle in the same way: the result is that of a sweep that
     sees no ids at all (`sweep_anonymous`).
-/
import PulseTimeline.Proofs.SweepRun

namespace PulseTimeline

variable {σ τ ε : Type} {rank : EventType → Option Int}
  {step : σ → Event → Except ε (σ × Event)} {init : σ} {events events' : List Event}

/-! ## By id -/

/-- A step that gives every event back under its id. -/
def KeepsIds (step : σ → Event → Except ε (σ × Event)) : Prop :=
  ∀ s e s' e', step s e = .ok (s', e') → e'.id = e.id

/-- The result for an event, found by its id. -/
def settle (results : List Event) (e : Event) : Event :=
  (results.find? fun r => r.id = e.id).getD e

/-- An event with a result of its id is replaced by it. -/
theorem settle_of_mem {results : List Event} (hids : (results.map Event.id).Nodup) {r e : Event}
    (hr : r ∈ results) (hid : r.id = e.id) : settle results e = r := by
  cases hfind : results.find? fun r => r.id = e.id with
  | none =>
      have hne := List.find?_eq_none.mp hfind r hr
      exact absurd hid (by simpa using hne)
  | some q =>
      have hq : q.id = e.id := by simpa using List.find?_some hfind
      have hqr : q = r :=
        List.inj_on_of_nodup_map hids (List.mem_of_find?_eq_some hfind) hr (hq.trans hid.symm)
      rw [settle, hfind, Option.getD_some, hqr]

/-- An event without a result stays. -/
theorem settle_of_notMem {results : List Event} {e : Event} (h : ∀ r ∈ results, r.id ≠ e.id) :
    settle results e = e := by
  have hfind : results.find? (fun r => r.id = e.id) = none :=
    List.find?_eq_none.mpr fun r hr => by simpa using h r hr
  rw [settle, hfind, Option.getD_none]

theorem id_settle (results : List Event) (e : Event) : (settle results e).id = e.id := by
  unfold settle
  cases hfind : results.find? fun r => r.id = e.id with
  | none => rfl
  | some r => simpa using List.find?_some hfind

/-- A run of steps that keep ids keeps the ids of the list. -/
theorem KeepsIds.map_id_visit (hkeep : KeepsIds step) {s t : σ} {es rs : List Event}
    (h : visit step s es = .ok (t, rs)) : rs.map Event.id = es.map Event.id := by
  induction es generalizing s rs with
  | nil => cases h; rfl
  | cons e es ih =>
      obtain ⟨s', e', rs', hstep, hrest, rfl⟩ := visit_cons_ok.mp h
      rw [List.map_cons, List.map_cons, ih hrest, hkeep s e s' e' hstep]

/-- The events that a visit of the queue returns have distinct ids. -/
theorem KeepsIds.nodup_visit (hkeep : KeepsIds step) (hids : (events.map Event.id).Nodup) {s t : σ}
    {rs : List Event} (h : visit step s (queue rank events) = .ok (t, rs)) :
    (rs.map Event.id).Nodup := by
  rw [hkeep.map_id_visit h, ((queue_perm rank events).map Event.id).nodup_iff]
  exact hids.sublist (List.filter_sublist.map Event.id)

theorem forall₂_settle {results es rs : List Event} (hids : (results.map Event.id).Nodup)
    (hsub : ∀ r ∈ rs, r ∈ results) (h : rs.map Event.id = es.map Event.id) :
    List.Forall₂ (fun e e' => settle results e = e') es rs := by
  induction es generalizing rs with
  | nil =>
      rw [List.map_nil, List.map_eq_nil_iff] at h
      subst h
      exact List.Forall₂.nil
  | cons e es ih =>
      cases rs with
      | nil => cases h
      | cons r rs =>
          rw [List.map_cons, List.map_cons, List.cons.injEq] at h
          have hr : settle results e = r := settle_of_mem hids (hsub r List.mem_cons_self) h.1
          exact List.Forall₂.cons hr (ih (fun q hq => hsub q (List.mem_cons_of_mem _ hq)) h.2)

theorem eq_map_of_forall₂ {α : Type} {f : α → α} {P : α → α → Prop} {xs ys : List α}
    (h : List.Forall₂ P xs ys) (hP : ∀ x ∈ xs, ∀ y, P x y → y = f x) : ys = xs.map f := by
  induction h with
  | nil => rfl
  | @cons x y xs ys hxy _ ih =>
      rw [List.map_cons, hP x List.mem_cons_self y hxy,
        ih fun z hz => hP z (List.mem_cons_of_mem _ hz)]

theorem exists_of_forall₂ {α β : Type} {P : α → β → Prop} {xs : List α} {ys : List β}
    (h : List.Forall₂ P xs ys) {y : β} (hy : y ∈ ys) : ∃ x ∈ xs, P x y := by
  induction h with
  | nil => cases hy
  | @cons x y' xs ys hxy _ ih =>
      rcases List.mem_cons.mp hy with rfl | hy
      · exact ⟨x, List.mem_cons_self, hxy⟩
      · obtain ⟨z, hz, hP⟩ := ih hy
        exact ⟨z, List.mem_cons_of_mem _ hz, hP⟩

/-- With distinct ids, a sweep settles every event of the list by its id. -/
theorem sweep_eq_map (hkeep : KeepsIds step) (hids : (events.map Event.id).Nodup) :
    sweep rank step init events =
      (fun r => events.map (settle r.2)) <$> visit step init (queue rank events) := by
  have heq := sweep_eq rank step init events
  cases hvisit : visit step init (queue rank events) with
  | error x => rw [heq, hvisit]; rfl
  | ok p =>
      obtain ⟨t, rs⟩ := p
      rw [hvisit] at heq
      have hrs := hkeep.map_id_visit hvisit
      have hsettle := forall₂_settle (hkeep.nodup_visit hids hvisit) (fun _ hr => hr) hrs
      have hframe := sweep_forall₂ (R := fun e e' => settle rs e = e')
        (fun t' rs' h => by rw [hvisit] at h; cases h; exact hsettle) heq
      rw [heq]
      refine congrArg Except.ok (eq_map_of_forall₂ hframe fun e he e' h => ?_)
      split at h
      · exact h.symm
      · -- No result has the id of an event that is not visited.
        rename_i hunranked
        rw [h, settle_of_notMem]
        intro r hr hid
        have hmem : r.id ∈ (queue rank events).map Event.id := hrs ▸ List.mem_map_of_mem hr
        obtain ⟨q, hq, hqid⟩ := List.mem_map.mp hmem
        obtain ⟨hqe, hranked⟩ := mem_queue.mp hq
        rw [List.inj_on_of_nodup_map hids hqe he (hqid.trans hid)] at hranked
        exact hunranked hranked

/-- What a sweep makes of an event does not depend on the order of the list: it fails alike on every
    order, or settles every event alike. -/
theorem sweep_perm (rank : EventType → Option Int) (init : σ) (hkeep : KeepsIds step)
    (hids : (events.map Event.id).Nodup) (hperm : events'.Perm events) :
    (∃ x, sweep rank step init events = .error x ∧ sweep rank step init events' = .error x) ∨
    ∃ f, sweep rank step init events = .ok (events.map f) ∧
      sweep rank step init events' = .ok (events'.map f) := by
  have hids' : (events'.map Event.id).Nodup := ((hperm.map Event.id).nodup_iff).mpr hids
  rw [sweep_eq_map hkeep hids, sweep_eq_map hkeep hids', queue_perm_congr hids hperm]
  cases visit step init (queue rank events) with
  | error x => exact .inl ⟨x, rfl, rfl⟩
  | ok r => exact .inr ⟨settle r.2, rfl, rfl⟩

/-- The events of a strictly sorted list that come before one of them stand in front of it. -/
theorem filter_front {pre post : List Event} {e : Event}
    (hsorted : (pre ++ e :: post).Pairwise fun a b => a.place rank < b.place rank) :
    ((pre ++ e :: post).filter fun f => f.place rank < e.place rank) = pre := by
  obtain ⟨_, hpost, hcross⟩ := List.pairwise_append.mp hsorted
  have hfront : (pre.filter fun f => f.place rank < e.place rank) = pre :=
    List.filter_eq_self.mpr fun f hf => by simpa using hcross f hf e List.mem_cons_self
  have hback : ((e :: post).filter fun f => f.place rank < e.place rank) = [] := by
    refine List.filter_eq_nil_iff.mpr fun f hf => ?_
    rcases List.mem_cons.mp hf with rfl | hf
    · simp
    · have hlt := (List.pairwise_cons.mp hpost).1 f hf
      simpa using le_of_lt hlt
  rw [List.filter_append, hfront, hback, List.append_nil]

/-- An event of a strictly sorted list is visited in the state after all events before it. -/
theorem visit_front {s t u : σ} (pre : List Event) {es ws rs : List Event}
    (hsorted : (pre ++ es).Pairwise fun a b => a.place rank < b.place rank)
    (hpre : visit step s pre = .ok (u, ws)) (h : visit step u es = .ok (t, rs)) :
    List.Forall₂ (fun e e' => ∃ v v' ws,
      visit step s ((pre ++ es).filter fun f => f.place rank < e.place rank) = .ok (v, ws) ∧
        step v e = .ok (v', e')) es rs := by
  induction es generalizing pre u ws rs with
  | nil =>
      cases h
      exact List.Forall₂.nil
  | cons e es ih =>
      obtain ⟨u', e', rs', hstep, hrest, rfl⟩ := visit_cons_ok.mp h
      refine List.Forall₂.cons ⟨u, u', ws, ?_, hstep⟩ ?_
      · rw [filter_front hsorted]
        exact hpre
      · have hone : visit step u [e] = .ok (u', [e']) :=
          visit_cons_ok.mpr ⟨u', e', [], hstep, rfl, rfl⟩
        have hpre' : visit step s (pre ++ [e]) = .ok (u', ws ++ [e']) :=
          visit_append_ok.mpr ⟨u, ws, [e'], hpre, hone, rfl⟩
        have hrw : pre ++ e :: es = (pre ++ [e]) ++ es := by simp
        rw [hrw] at hsorted ⊢
        exact ih (pre ++ [e]) hsorted hpre' hrest

/-- With distinct ids, an event becomes what the step makes of it in the state after all events
    before it, in the order of the sweep. -/
theorem sweep_result (hids : (events.map Event.id).Nodup) {out : List Event}
    (h : sweep rank step init events = .ok out) :
    List.Forall₂ (fun e e' => if (rank e.type).isSome then
      ∃ s s' ws, visit step init ((queue rank events).filter fun f => f.place rank < e.place rank) =
        .ok (s, ws) ∧ step s e = .ok (s', e') else e' = e) events out :=
  sweep_forall₂ (fun _ _ hvisit => visit_front [] (queue_strict hids) rfl hvisit) h

/-! ## Parts -/

/-- A step that keeps a part of the events to itself: the events outside of the part leave alone
    what the part sees of the state, and what happens to an event of the part depends only on
    that. -/
structure Separates (step : σ → Event → Except ε (σ × Event)) (part : Event → Bool)
    (view : σ → τ) : Prop where
  keepsIds : KeepsIds step
  part_eq : ∀ {s e s' e'}, step s e = .ok (s', e') → part e' = part e
  skip : ∀ {s e s' e'}, part e = false → step s e = .ok (s', e') → view s' = view s
  keep : ∀ {s t e s' e'}, part e = true → view s = view t → step s e = .ok (s', e') →
    ∃ t', step t e = .ok (t', e') ∧ view s' = view t'

/-- On one part of the list a run does what it does without the other events. -/
theorem Separates.visit_filter {part : Event → Bool} {view : σ → τ}
    (hsep : Separates step part view) {es : List Event} :
    ∀ {s t u rs}, view s = view t → visit step s es = .ok (u, rs) →
      ∃ v, visit step t (es.filter part) = .ok (v, rs.filter part) := by
  induction es with
  | nil =>
      intro s t u rs _ h
      cases h
      exact ⟨t, rfl⟩
  | cons e es ih =>
      intro s t u rs hview h
      obtain ⟨s', e', rs', hstep, hrest, rfl⟩ := visit_cons_ok.mp h
      cases hpart : part e with
      | false =>
          have hpart' : part e' = false := (hsep.part_eq hstep).trans hpart
          have hview' : view s' = view t := (hsep.skip hpart hstep).trans hview
          obtain ⟨v, hv⟩ := ih hview' hrest
          refine ⟨v, ?_⟩
          rw [List.filter_cons_of_neg (by simp [hpart]), List.filter_cons_of_neg (by simp [hpart'])]
          exact hv
      | true =>
          have hpart' : part e' = true := (hsep.part_eq hstep).trans hpart
          obtain ⟨t', htstep, hview'⟩ := hsep.keep hpart hview hstep
          obtain ⟨v, hv⟩ := ih hview' hrest
          refine ⟨v, ?_⟩
          rw [List.filter_cons_of_pos (by simp [hpart]), List.filter_cons_of_pos (by simp [hpart'])]
          exact visit_cons_ok.mpr ⟨t', e', _, htstep, hv, rfl⟩

section Parts

variable {part : Event → Bool}

/-- An event is in the part if and only if its result is, and then the part settles it alike. -/
theorem settle_filter (hkeep : KeepsIds step)
    (hpart : ∀ {s e s' e'}, step s e = .ok (s', e') → part e' = part e)
    (hids : (events.map Event.id).Nodup) {s t : σ} {rs : List Event}
    (hvisit : visit step s (queue rank events) = .ok (t, rs)) {e : Event} (he : e ∈ events) :
    part (settle rs e) = part e ∧
      (part e = true → settle (rs.filter part) e = settle rs e) := by
  have hnodup := hkeep.nodup_visit hids hvisit
  have hnodup' : ((rs.filter part).map Event.id).Nodup :=
    hnodup.sublist (List.filter_sublist.map Event.id)
  by_cases hex : ∃ r ∈ rs, r.id = e.id
  · obtain ⟨r, hr, hid⟩ := hex
    obtain ⟨q, hq, w, w', hstep⟩ := exists_of_forall₂ (visit_forall₂ hvisit) hr
    have hqid : q.id = e.id := (hkeep w q w' r hstep).symm.trans hid
    have hqe : q = e := List.inj_on_of_nodup_map hids (mem_queue.mp hq).1 he hqid
    have hre : part r = part e := hqe ▸ hpart hstep
    rw [settle_of_mem hnodup hr hid]
    refine ⟨hre, fun hp => ?_⟩
    exact settle_of_mem hnodup' (List.mem_filter.mpr ⟨hr, hre.trans hp⟩) hid
  · have hnot : ∀ r ∈ rs, r.id ≠ e.id := fun r hr hid => hex ⟨r, hr, hid⟩
    rw [settle_of_notMem hnot]
    refine ⟨rfl, fun _ => ?_⟩
    exact settle_of_notMem fun r hr => hnot r (List.mem_filter.mp hr).1

/-- A sweep of a part gives that part of the result of the whole sweep, if a visit of the part does
    so. -/
theorem sweep_part (hkeep : KeepsIds step)
    (hpart : ∀ {s e s' e'}, step s e = .ok (s', e') → part e' = part e)
    (hids : (events.map Event.id).Nodup)
    (hvisit : ∀ {u rs}, visit step init (queue rank events) = .ok (u, rs) →
      ∃ v, visit step init ((queue rank events).filter part) = .ok (v, rs.filter part))
    {out : List Event} (h : sweep rank step init events = .ok out) :
    sweep rank step init (events.filter part) = .ok (out.filter part) := by
  have hids' : ((events.filter part).map Event.id).Nodup :=
    hids.sublist (List.filter_sublist.map Event.id)
  rw [sweep_eq_map hkeep hids] at h
  rw [sweep_eq_map hkeep hids', queue_filter hids]
  cases hwhole : visit step init (queue rank events) with
  | error x =>
      rw [hwhole] at h
      cases h
  | ok p =>
      obtain ⟨u, rs⟩ := p
      rw [hwhole] at h
      have hout : events.map (settle rs) = out := Except.ok.inj h
      obtain ⟨v, hv⟩ := hvisit hwhole
      have hsettle := fun e he => settle_filter hkeep hpart hids hwhole (e := e) he
      rw [hv, ← hout, List.filter_map]
      refine congrArg Except.ok ?_
      have hfilter : events.filter (part ∘ settle rs) = events.filter part :=
        List.filter_congr fun e he => (hsettle e he).1
      rw [hfilter]
      refine List.map_congr_left fun e he => ?_
      obtain ⟨hmem, hpe⟩ := List.mem_filter.mp he
      exact (hsettle e hmem).2 hpe

/-- A sweep of a separate part gives that part of the result of the whole sweep. -/
theorem sweep_filter {view : σ → τ} (hsep : Separates step part view)
    (hids : (events.map Event.id).Nodup) {out : List Event}
    (h : sweep rank step init events = .ok out) :
    sweep rank step init (events.filter part) = .ok (out.filter part) :=
  sweep_part hsep.keepsIds hsep.part_eq hids (hsep.visit_filter rfl) h

/-- A sweep of a selection by ids, if all that it visits is selected, gives the selection of the
    whole result, or fails alike. -/
theorem sweep_selected (hkeep : KeepsIds step) (hids : (events.map Event.id).Nodup)
    (keeps : Nat → Bool)
    (hranked : ∀ e ∈ events, (rank e.type).isSome = true → keeps e.id = true) :
    sweep rank step init (events.filter fun e => keeps e.id) =
      List.filter (fun e => keeps e.id) <$> sweep rank step init events := by
  have hids' : ((events.filter fun e => keeps e.id).map Event.id).Nodup :=
    hids.sublist (List.filter_sublist.map Event.id)
  have hqueue : queue rank (events.filter fun e => keeps e.id) = queue rank events := by
    rw [queue_filter hids]
    refine List.filter_eq_self.mpr fun e he => ?_
    obtain ⟨hmem, hr⟩ := mem_queue.mp he
    exact hranked e hmem hr
  rw [sweep_eq_map hkeep hids, sweep_eq_map hkeep hids', hqueue]
  cases visit step init (queue rank events) with
  | error x => rfl
  | ok p =>
      obtain ⟨t, rs⟩ := p
      show Except.ok ((events.filter fun e => keeps e.id).map (settle rs)) =
        Except.ok ((events.map (settle rs)).filter fun e => keeps e.id)
      rw [List.filter_map]
      simp only [Function.comp_def, id_settle]

end Parts

/-! ## Without ids -/

/-- The event under an id that says nothing. -/
def Event.anonymous (e : Event) : Event := { e with id := 0 }

/-- The selected event under an id that says nothing. -/
def Selected.anonymous (x : Selected) : Selected := { x with event := x.event.anonymous }

/-- Selection does not look at ids. -/
theorem selectFrom_anonymous (rank : EventType → Option Int) (start : Nat) (events : List Event) :
    selectFrom rank start (events.map Event.anonymous) =
      (selectFrom rank start events).map Selected.anonymous := by
  induction events generalizing start with
  | nil => rfl
  | cons e es ih =>
      have htype : e.anonymous.type = e.type := rfl
      simp only [List.map_cons, selectFrom, htype]
      cases rank e.type with
      | none => exact ih (start + 1)
      | some r => simp only [List.map_cons, ih]; rfl

/-- Within each rank, ids increase along the list. -/
def IdsFollowList (rank : EventType → Option Int) (events : List Event) : Prop :=
  events.Pairwise fun a b => (rank a.type).isSome = true → rank a.type = rank b.type → a.id ≤ b.id

/-- What holds between any two ranked events holds between the selected ones. -/
theorem pairwise_selectFrom {rank : EventType → Option Int} {R : Selected → Selected → Prop}
    {events : List Event} (start : Nat)
    (h : events.Pairwise fun a b => ∀ x y : Selected, x.event = a → y.event = b →
      rank a.type = some x.rank → rank b.type = some y.rank → R x y) :
    (selectFrom rank start events).Pairwise R := by
  induction events generalizing start with
  | nil => exact List.Pairwise.nil
  | cons e es ih =>
      obtain ⟨he, hes⟩ := List.pairwise_cons.mp h
      simp only [selectFrom]
      split
      · rename_i r hr
        refine List.pairwise_cons.mpr ⟨fun y hy => ?_, ih (start + 1) hes⟩
        obtain ⟨_, hget, hrank⟩ := mem_selectFrom hy
        exact he y.event (List.mem_of_getElem? hget) _ _ rfl rfl hr hrank
      · exact ih (start + 1) hes

/-- Ids that follow the list do not influence the order of a sweep. -/
theorem sweepOrder_anonymous (h : IdsFollowList rank events) :
    sweepOrder rank (events.map Event.anonymous) =
      (sweepOrder rank events).map Selected.anonymous := by
  have hle : (selectFrom rank 0 events).Pairwise fun x y =>
      Selected.le x y = Selected.le x.anonymous y.anonymous := by
    refine pairwise_selectFrom 0 (h.imp fun {a b} hab x y hx hy hrx hry => ?_)
    have hid : x.rank = y.rank → x.event.id ≤ y.event.id := by
      intro hxy
      rw [hx, hy]
      exact hab (by rw [hrx]; rfl) (by rw [hrx, hry, hxy])
    show Selected.le x y = Selected.le x.anonymous y.anonymous
    have htime : ∀ z : Selected, z.anonymous.event.time = z.event.time := fun _ => rfl
    have hrank : ∀ z : Selected, z.anonymous.rank = z.rank := fun _ => rfl
    have hzero : ∀ z : Selected, z.anonymous.event.id = 0 := fun _ => rfl
    simp only [Selected.le, htime, hrank, hzero]
    split
    · split
      · rename_i hxy
        simp [hid hxy]
      · rfl
    · rfl
  show stableSort Selected.le (selectFrom rank 0 (events.map Event.anonymous)) =
    (stableSort Selected.le (selectFrom rank 0 events)).map Selected.anonymous
  rw [selectFrom_anonymous, stableSort_map, stableSort_congr hle]

/-- A step that does not look at ids makes a run that does not. -/
theorem visit_anonymous (hstep : ∀ s e, step s e.anonymous =
      (fun r => (r.1, r.2.anonymous)) <$> step s e) (s : σ) (es : List Event) :
    visit step s (es.map Event.anonymous) =
      (fun r => (r.1, r.2.map Event.anonymous)) <$> visit step s es := by
  induction es generalizing s with
  | nil => rfl
  | cons e es ih =>
      simp only [List.map_cons, visit, hstep]
      cases step s e with
      | error x => rfl
      | ok p =>
          obtain ⟨s', e'⟩ := p
          show (visit step s' (es.map Event.anonymous) >>= fun r =>
              .ok (r.1, e'.anonymous :: r.2)) =
            (fun r => (r.1, r.2.map Event.anonymous)) <$>
              (visit step s' es >>= fun r => .ok (r.1, e' :: r.2))
          rw [ih s']
          cases visit step s' es <;> rfl

/-- Putting results back does not look at ids. -/
theorem putBack_anonymous (events : List Event) (places : List Nat) (rs : List Event) :
    putBack (events.map Event.anonymous) (places.zip (rs.map Event.anonymous)) =
      (putBack events (places.zip rs)).map Event.anonymous := by
  have hfold : ∀ (resolved : List (Nat × Event)) (a : Array Event),
      (resolved.map fun r => (r.1, r.2.anonymous)).foldl putOne (a.map Event.anonymous) =
        (resolved.foldl putOne a).map Event.anonymous := by
    intro resolved
    induction resolved with
    | nil => intro a; rfl
    | cons r rs ih =>
        intro a
        rw [List.map_cons, List.foldl_cons, List.foldl_cons, ← ih]
        simp only [putOne, Array.map_setIfInBounds]
  have hzip : places.zip (rs.map Event.anonymous) =
      (places.zip rs).map fun r => (r.1, r.2.anonymous) := by
    rw [List.zip_map_right]
    rfl
  show ((places.zip (rs.map Event.anonymous)).foldl putOne
    (events.map Event.anonymous).toArray).toList = _
  rw [hzip, ← List.map_toArray, hfold, Array.toList_map]
  rfl

/-- Where ids follow the list, the result is that of a sweep that sees no ids. -/
theorem sweep_anonymous (h : IdsFollowList rank events)
    (hstep : ∀ s e, step s e.anonymous = (fun r => (r.1, r.2.anonymous)) <$> step s e) :
    sweep rank step init (events.map Event.anonymous) =
      List.map Event.anonymous <$> sweep rank step init events := by
  have hqueue : queue rank (events.map Event.anonymous) =
      (queue rank events).map Event.anonymous := by
    rw [queue, sweepOrder_anonymous h, queue, List.map_map, List.map_map]
    rfl
  have hplaces : (sweepOrder rank (events.map Event.anonymous)).map Selected.index =
      (sweepOrder rank events).map Selected.index := by
    rw [sweepOrder_anonymous h, List.map_map]
    rfl
  rw [sweep_eq, sweep_eq, hqueue, hplaces, visit_anonymous hstep]
  cases visit step init (queue rank events) with
  | error x => rfl
  | ok p => exact congrArg Except.ok (putBack_anonymous events _ p.2)

end PulseTimeline
