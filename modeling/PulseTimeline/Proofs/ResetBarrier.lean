/-
  A reset of the phases is a barrier.

  1. **What pulses see** — the pass tells apart signals that it knows and signals that it does not,
     and a reset turns only the former back, leaving the time of their last set behind.  The pulses
     see no more than the phase `carried` on a signal and the `reference` time from which it turns
     (`phaseAt_eq`).

  2. **Times** — `Behind now` says that a state holds no times but ordinary instants up to `now`; the
     pass keeps this along a sorted list.  Of such times the later one is the greater one.

  3. **Alike** — states that look alike to all pulses, although they may know different signals.
     After a reset any two states are alike (`alike_reset`), a step keeps them alike and gives the
     same result (`Alike.step`), hence so does a visit (`Alike.visit`).

  4. **Barrier** — so all that comes after a reset comes out the same without what comes before it
     (`resolve_of_reset`).
-/
import PulseTimeline.Proofs.PhaseLaw
import PulseTimeline.Proofs.TimeOrder

namespace PulseTimeline

namespace Phase

/-! ## What pulses see -/

namespace State

/-- The phase carried on a signal. -/
def carried (s : State) (uid : SignalUid) : Float :=
  ((s.signals.get? uid).getD .fresh).carried

/-- The time from which a signal turns. -/
def reference (s : State) (uid : SignalUid) : Float :=
  match s.signals.get? uid with
  | some r => later r.reference s.resetTime
  | none => s.resetTime

end State

/-- The phase of a signal depends on its reference and what it carries, not on whether it was ever
    touched. -/
theorem phaseAt_eq (s : State) (uid : SignalUid) (frequency time : Float) :
    s.phaseAt uid frequency time = turned time (s.reference uid) frequency (s.carried uid) := by
  unfold State.phaseAt State.reference State.carried
  cases s.signals.get? uid <;> rfl

/-- After a reset no signal carries anything. -/
theorem carried_reset (s : State) (time : Float) (uid : SignalUid) :
    (s.reset time).carried uid = 0.0 := by
  unfold State.carried State.reset
  rw [Table.get?_mapValues]
  cases s.signals.get? uid <;> rfl

/-- The phase that a signal carries after a pulse on it. -/
theorem carried_advance (s : State) (time : Float) (pulse : PulseEvent) (uid : SignalUid) :
    (s.advance time pulse).carried uid =
      if uid = pulse.signal then
        pulse.phaseSet.getD ((pulse.phaseIncrement.map (s.carried uid + ·)).getD (s.carried uid))
      else s.carried uid := by
  unfold State.carried
  rw [get?_advance]
  split
  · unfold Running.advanced
    cases pulse.phaseSet with
    | some value => rfl
    | none => cases pulse.phaseIncrement <;> rfl
  · rfl

/-! ## Times -/

/-- Whether a time is that of an ordinary instant up to `now`. -/
def Past (now : Int) (x : Float) : Prop :=
  ∃ t : Seconds, t.Ordinary ∧ t.key ≤ now ∧ x = t.toFloat

/-- What is past stays past. -/
theorem Past.mono {now now' : Int} {x : Float} (h : Past now x) (hle : now ≤ now') :
    Past now' x := by
  obtain ⟨t, ht, hkey, rfl⟩ := h
  exact ⟨t, ht, le_trans hkey hle, rfl⟩

theorem Past.zero {now : Int} (h : Seconds.zero.key ≤ now) : Past now 0.0 :=
  ⟨.zero, Seconds.ordinary_zero, h, Seconds.toFloat_zero.symm⟩

/-- Of two ordinary instants in order, the later time is the second. -/
theorem later_eq_right {a b : Seconds} (ha : a.Ordinary) (hb : b.Ordinary) (h : a.key ≤ b.key) :
    later a.toFloat b.toFloat = b.toFloat := by
  unfold later
  rw [ha.isNaN_toFloat, hb.isNaN_toFloat, if_neg (by decide), if_neg (by decide)]
  rcases lt_or_eq_of_le h with hlt | heq
  · rw [if_pos (Seconds.toFloat_lt_toFloat ha hb hlt)]
  · rw [Seconds.key_injective heq, ite_self]

/-- An instant is later than everything past it. -/
theorem Past.later_eq {t : Seconds} {x : Float} (h : Past t.key x) (ht : t.Ordinary) :
    later x t.toFloat = t.toFloat := by
  obtain ⟨u, hu, hkey, rfl⟩ := h
  exact later_eq_right hu ht hkey

/-- What is past is not before the start of the timeline. -/
theorem Past.later_zero {now : Int} {x : Float} (h : Past now x) : later 0.0 x = x := by
  obtain ⟨t, ht, _, rfl⟩ := h
  rw [← Seconds.toFloat_zero]
  exact later_eq_right Seconds.ordinary_zero ht ht.key_zero_le

/-- Events at ordinary instants, in order of time, none of them before `now`. -/
structure Timely (now : Int) (es : List Event) : Prop where
  ordinary : ∀ e ∈ es, e.time.Ordinary
  notBefore : ∀ e ∈ es, now ≤ e.time.key
  sorted : es.Pairwise fun a b => a.time.key ≤ b.time.key

/-- A list is timely from now on if its first event is, and the rest from then on. -/
theorem timely_cons {now : Int} {e : Event} {es : List Event} :
    Timely now (e :: es) ↔ e.time.Ordinary ∧ now ≤ e.time.key ∧ Timely e.time.key es := by
  constructor
  · rintro ⟨hordinary, hnow, hsorted⟩
    obtain ⟨htime, htimes⟩ := List.forall_mem_cons.mp hordinary
    obtain ⟨hle, hsorted⟩ := List.pairwise_cons.mp hsorted
    exact ⟨htime, hnow e List.mem_cons_self, htimes, hle, hsorted⟩
  · rintro ⟨htime, hnow, htimes, hle, hsorted⟩
    refine ⟨List.forall_mem_cons.mpr ⟨htime, htimes⟩, ?_, List.pairwise_cons.mpr ⟨hle, hsorted⟩⟩
    exact List.forall_mem_cons.mpr ⟨hnow, fun f hf => le_trans hnow (hle f hf)⟩

/-- All times that the state holds are those of ordinary instants up to `now`. -/
structure State.Behind (now : Int) (s : State) : Prop where
  resetTime : Past now s.resetTime
  reference : ∀ uid r, s.signals.get? uid = some r → Past now r.reference

section Behind

variable {now : Int} {s : State} {t : Seconds}

/-- The state that the pass starts from is behind every instant from zero on. -/
theorem State.Behind.start (h : Seconds.zero.key ≤ now) : State.Behind now .start := by
  refine ⟨Past.zero h, fun uid r hr => ?_⟩
  rw [show State.start.signals.get? uid = none from Table.get?_empty uid] at hr
  cases hr

theorem State.Behind.mono (h : s.Behind now) {now' : Int} (hle : now ≤ now') : s.Behind now' :=
  ⟨h.resetTime.mono hle, fun uid r hr => (h.reference uid r hr).mono hle⟩

/-- A reset writes its own instant. -/
theorem State.Behind.reset (h : s.Behind now) (ht : t.Ordinary) (hle : now ≤ t.key) :
    (s.reset t.toFloat).Behind t.key := by
  refine ⟨⟨t, ht, le_refl _, rfl⟩, fun uid r hr => ?_⟩
  unfold State.reset at hr
  rw [Table.get?_mapValues] at hr
  obtain ⟨r', hr', rfl⟩ := Option.map_eq_some_iff.mp hr
  exact (h.reference uid r' hr').mono hle

/-- A pulse writes its own instant, and only if it sets the phase. -/
theorem State.Behind.advance (h : s.Behind now) (ht : t.Ordinary) (hle : now ≤ t.key)
    (pulse : PulseEvent) : (s.advance t.toFloat pulse).Behind t.key := by
  have hzero : Past t.key 0.0 := Past.zero ht.key_zero_le
  refine ⟨?_, fun uid r hr => ?_⟩
  · rw [resetTime_advance]
    exact h.resetTime.mono hle
  · rw [get?_advance] at hr
    split at hr
    · unfold Running.advanced at hr
      cases hs : pulse.phaseSet with
      | some value =>
          rw [hs] at hr
          cases hr
          exact ⟨t, ht, le_refl _, rfl⟩
      | none =>
          cases hi : pulse.phaseIncrement with
          | some value =>
              rw [hs, hi] at hr
              cases hr
              cases hget : s.signals.get? uid with
              | some r' => exact (h.reference uid r' hget).mono hle
              | none => exact hzero
          | none =>
              rw [hs, hi] at hr
              exact (h.reference uid r hr).mono hle
    · exact (h.reference uid r hr).mono hle

/-- A step over timely events keeps the state behind them. -/
theorem State.Behind.step {m : SignalMap} {after : State} {e e' : Event} (h : s.Behind now)
    (ht : e.time.Ordinary) (hle : now ≤ e.time.key) (hstep : step m s e = .ok (after, e')) :
    after.Behind e.time.key := by
  rcases step_cases hstep with ⟨_, rfl, _⟩ | ⟨activity, pulse, pulse', _, hres, _⟩ |
    ⟨_, _, rfl, _⟩
  · exact h.reset ht hle
  · rcases resolvePulse_ok.mp hres with ⟨_, _, rfl, _⟩ | ⟨_, _, _, rfl, _⟩
    · exact h.mono hle
    · exact h.advance ht hle pulse
  · exact h.mono hle

/-- Before an event is visited, no time that the state holds is after it. -/
theorem State.Behind.visit {m : SignalMap} {after : State} {es rest rs : List Event} {e : Event}
    (h : s.Behind now) (htimely : Timely now (es ++ e :: rest))
    (hvisit : visit (Phase.step m) s es = .ok (after, rs)) :
    after.Behind e.time.key ∧ Timely e.time.key (e :: rest) := by
  induction es generalizing now s rs with
  | nil =>
      cases hvisit
      obtain ⟨htime, hle, hrest⟩ := timely_cons.mp htimely
      exact ⟨h.mono hle, timely_cons.mpr ⟨htime, le_refl _, hrest⟩⟩
  | cons f es ih =>
      obtain ⟨htime, hle, hrest⟩ := timely_cons.mp htimely
      obtain ⟨s₁, f', rs', hstep, hvrest, rfl⟩ := visit_cons_ok.mp hvisit
      exact ih (h.step htime hle hstep) hrest hvrest

/-- After a reset every signal turns from the reset on. -/
theorem reference_reset (h : s.Behind now) (ht : t.Ordinary) (hle : now ≤ t.key)
    (uid : SignalUid) : (s.reset t.toFloat).reference uid = t.toFloat := by
  unfold State.reference State.reset
  rw [Table.get?_mapValues]
  cases hget : s.signals.get? uid with
  | some r => exact ((h.reference uid r hget).mono hle).later_eq ht
  | none => rfl

/-- The time from which a signal turns after a pulse.  A signal that the pass gets to know by an
    increment turns from the last reset as before. -/
theorem reference_advance (h : s.Behind now) (time : Float) (pulse : PulseEvent)
    (uid : SignalUid) : (s.advance time pulse).reference uid =
      if uid = pulse.signal ∧ pulse.phaseSet.isSome then later time s.resetTime
      else s.reference uid := by
  unfold State.reference
  rw [get?_advance, resetTime_advance]
  by_cases hsignal : uid = pulse.signal
  · rw [if_pos hsignal]
    unfold Running.advanced
    cases hs : pulse.phaseSet with
    | some value => rw [if_pos ⟨hsignal, rfl⟩]
    | none =>
        rw [if_neg (by simp)]
        cases hi : pulse.phaseIncrement with
        | some value =>
            cases hget : s.signals.get? uid with
            | some r => rfl
            | none =>
                -- The signal gets the reference zero, which is not after the last reset.
                exact h.resetTime.later_zero
        | none => rfl
  · rw [if_neg hsignal, if_neg fun hand => hsignal hand.1]

end Behind

/-! ## Alike -/

/-- States that look alike to all pulses. -/
structure Alike (s t : State) : Prop where
  resetTime : s.resetTime = t.resetTime
  carried : ∀ uid, s.carried uid = t.carried uid
  reference : ∀ uid, s.reference uid = t.reference uid

section Alike

variable {m : SignalMap} {now now' : Int} {s t s' : State} {e e' : Event}

/-- States that are alike show the same phases. -/
theorem Alike.phaseAt_eq (h : Alike s t) (uid : SignalUid) (frequency time : Float) :
    s.phaseAt uid frequency time = t.phaseAt uid frequency time := by
  rw [Phase.phaseAt_eq, Phase.phaseAt_eq, h.carried, h.reference]

/-- After a reset nothing of the past is seen. -/
theorem alike_reset {time : Seconds} (hs : s.Behind now) (ht : t.Behind now')
    (htime : time.Ordinary) (hle : now ≤ time.key) (hle' : now' ≤ time.key) :
    Alike (s.reset time.toFloat) (t.reset time.toFloat) := by
  refine ⟨rfl, fun uid => ?_, fun uid => ?_⟩
  · rw [carried_reset, carried_reset]
  · rw [reference_reset hs htime hle, reference_reset ht htime hle']

/-- A pulse keeps states alike, wherever they come from. -/
theorem Alike.advance (h : Alike s t) (hs : s.Behind now) (ht : t.Behind now') (time : Float)
    (pulse : PulseEvent) : Alike (s.advance time pulse) (t.advance time pulse) := by
  refine ⟨?_, fun uid => ?_, fun uid => ?_⟩
  · rw [resetTime_advance, resetTime_advance, h.resetTime]
  · rw [carried_advance, carried_advance, h.carried]
  · rw [reference_advance hs, reference_advance ht, h.resetTime, h.reference]

/-- A step that succeeds from one state succeeds from one alike, with the same result. -/
theorem Alike.step (h : Alike s t) (hs : s.Behind now) (ht : t.Behind now)
    (htime : e.time.Ordinary) (hle : now ≤ e.time.key)
    (hstep : step m s e = .ok (s', e')) :
    ∃ t', step m t e = .ok (t', e') ∧ Alike s' t' := by
  rcases step_cases hstep with ⟨hr, rfl, rfl⟩ | ⟨activity, pulse, pulse', hk, hres, rfl⟩ |
    ⟨hr, hp, rfl, rfl⟩
  · exact ⟨_, step_reset hr m t, alike_reset hs ht htime hle hle⟩
  · rw [step_pulse hk]
    rcases resolvePulse_ok.mp hres with ⟨hhw, hset, rfl, rfl⟩ | ⟨hhw, readout, hreadout, rfl, rfl⟩
    · have hres' : resolvePulse m t e.time.toFloat pulse =
          .ok (t, { pulse with oscillatorPhase := none }) :=
        resolvePulse_ok.mpr (.inl ⟨hhw, hset, rfl, rfl⟩)
      exact ⟨t, by rw [hres']; rfl, h⟩
    · have hafter := h.advance hs ht e.time.toFloat pulse
      have hsame : resolved readout (s.advance e.time.toFloat pulse) e.time.toFloat pulse =
          resolved readout (t.advance e.time.toFloat pulse) e.time.toFloat pulse := by
        unfold resolved
        rw [hafter.phaseAt_eq]
      have hres' := resolvePulse_ok.mpr (.inr ⟨hhw, readout, hreadout, rfl, hsame⟩)
      exact ⟨_, by rw [hres']; rfl, hafter⟩
  · exact ⟨t, step_idle hr hp m t, h⟩

/-- Alike states give the same results for events that follow in time. -/
theorem Alike.visit {es rs : List Event} (h : Alike s t) (hs : s.Behind now) (ht : t.Behind now)
    (htimely : Timely now es) (hvisit : visit (Phase.step m) s es = .ok (s', rs)) :
    ∃ t', visit (Phase.step m) t es = .ok (t', rs) := by
  -- Along the list both states stay behind the events to come, and alike.
  induction es generalizing now s t rs with
  | nil =>
      cases hvisit
      exact ⟨t, rfl⟩
  | cons e es ih =>
      obtain ⟨htime, hle, hrest⟩ := timely_cons.mp htimely
      obtain ⟨s₁, e', rs', hstep, hsrest, rfl⟩ := visit_cons_ok.mp hvisit
      obtain ⟨t₁, hstep', halike⟩ := h.step hs ht htime hle hstep
      obtain ⟨t', htrest⟩ := ih halike (hs.step htime hle hstep) (ht.step htime hle hstep') hrest
        hsrest
      exact ⟨t', visit_cons_ok.mpr ⟨t₁, e', rs', hstep', htrest, rfl⟩⟩

end Alike

/-! ## Barrier -/

/-- Whether an event is a reset or a pulse and comes before `r`: at an earlier instant, or at the
    same instant, where resets come before pulses and then smaller ids before larger ones. -/
def precedes (r e : Event) : Bool :=
  (e.kind.isReset || e.kind.pulse?.isSome) && decide (e.place rank < r.place rank)

/-- Writing a phase does not move an event. -/
theorem place_withPulse {e : Event} {activity : Activity} {pulse : PulseEvent}
    (hk : e.kind = .pulseStart activity pulse) (pulse' : PulseEvent) :
    (e.withPulse activity pulse').place rank = e.place rank := by
  unfold Event.place Event.type
  rw [hk]
  rfl

/-- What a step makes of an event precedes `r` if and only if the event does. -/
theorem precedes_of_step {m : SignalMap} {r e e' : Event} {s after : State}
    (hstep : step m s e = .ok (after, e')) : precedes r e' = precedes r e := by
  rcases step_cases hstep with ⟨_, _, rfl⟩ | ⟨activity, pulse, pulse', hk, _, rfl⟩ | ⟨_, _, _, rfl⟩
  · rfl
  · unfold precedes
    rw [place_withPulse hk, hk]
    rfl
  · rfl

/-- What comes after a reset is visited with the same results from the start. -/
theorem visit_of_reset {m : SignalMap} {before after rs : List Event} {r : Event} {s : State}
    (hreset : r.kind.isReset = true) (htimely : Timely Seconds.zero.key (before ++ r :: after))
    (hvisit : visit (step m) .start (before ++ r :: after) = .ok (s, rs)) :
    ∃ u t ra rb, visit (step m) .start before = .ok (u, ra) ∧
      visit (step m) .start (r :: after) = .ok (t, rb) ∧ rs = ra ++ rb := by
  obtain ⟨u, ra, rb, hfront, hback, rfl⟩ := visit_append_ok.mp hvisit
  obtain ⟨u', r', rb', hstep, hrest, rfl⟩ := visit_cons_ok.mp hback
  rw [step_reset hreset] at hstep
  cases hstep
  have hstart : State.Behind Seconds.zero.key .start := State.Behind.start (le_refl _)
  -- The state at the reset and the start are behind the reset, hence alike after it.
  obtain ⟨hu, htimely'⟩ := hstart.visit htimely hfront
  obtain ⟨htime, hle, hafter⟩ := timely_cons.mp htimely'
  have hzero := htime.key_zero_le
  obtain ⟨t, hrest'⟩ := (alike_reset hu hstart htime hle hzero).visit (hu.reset htime hle)
    (hstart.reset htime hzero) hafter hrest
  exact ⟨u, t, ra, r :: rb', hfront,
    visit_cons_ok.mpr ⟨_, r, rb', step_reset hreset m .start, hrest', rfl⟩, rfl⟩

theorem filter_back {α : Type} {p : α → Bool} {xs ys : List α} (hx : ∀ a ∈ xs, p a = false)
    (hy : ∀ a ∈ ys, p a = true) : (xs ++ ys).filter p = ys := by
  have hfront : xs.filter p = [] := List.filter_eq_nil_iff.mpr fun a ha => by simp [hx a ha]
  rw [List.filter_append, hfront, List.filter_eq_self.mpr hy, List.nil_append]

/-- What is before the reset or behind it stays there. -/
theorem precedes_of_visit {m : SignalMap} {r : Event} {es rs : List Event} {s t : State}
    {b : Bool} (hes : ∀ e ∈ es, precedes r e = b) (h : visit (step m) s es = .ok (t, rs)) :
    ∀ e ∈ rs, precedes r e = b := by
  intro e' he'
  obtain ⟨e, he, u, u', hstep⟩ := exists_of_forall₂ (visit_forall₂ h) he'
  rw [precedes_of_step hstep, hes e he]

/-- Of the events around a reset in the queue, those in front of it precede it. -/
theorem precedes_around {before after : List Event} {r : Event}
    (hranked : ∀ e ∈ before ++ r :: after, (rank e.type).isSome = true)
    (hstrict : (before ++ r :: after).Pairwise fun a b => a.place rank < b.place rank) :
    (∀ e ∈ before, precedes r e = true) ∧ ∀ e ∈ r :: after, precedes r e = false := by
  have hprecedes : ∀ e ∈ before ++ r :: after,
      precedes r e = decide (e.place rank < r.place rank) := by
    intro e he
    unfold precedes
    rw [← isSome_rank, hranked e he, Bool.true_and]
  obtain ⟨_, hback, hcross⟩ := List.pairwise_append.mp hstrict
  constructor
  · intro e he
    rw [hprecedes e (List.mem_append_left _ he), decide_eq_true_eq]
    exact hcross e he r List.mem_cons_self
  · intro e he
    rw [hprecedes e (List.mem_append_right _ he), decide_eq_false_iff_not, not_lt]
    rcases List.mem_cons.mp he with rfl | he
    · exact le_refl _
    · exact le_of_lt ((List.pairwise_cons.mp hback).1 e he)

/-- The events of a queue follow in time. -/
theorem timely_queue {events : List Event} (htimes : ∀ e ∈ events, e.time.Ordinary) :
    Timely Seconds.zero.key (queue rank events) := by
  have hqueue : ∀ e ∈ queue rank events, e.time.Ordinary :=
    fun e he => htimes e (mem_queue.mp he).1
  refine ⟨hqueue, fun e he => (hqueue e he).key_zero_le, (queue_sorted rank events).imp ?_⟩
  intro a b hab
  rcases Event.place_le_iff.mp hab with hlt | ⟨heq, _⟩ <;> omega

/-- With distinct ids and instants that are neither negative nor NaN, a reset of the phases of
    software oscillators is a barrier on all signals: without the resets and pulses before it, all
    other events come out of the pass as they do with them. -/
theorem resolve_of_reset {m : SignalMap} {events out : List Event} {r : Event}
    (hids : (events.map Event.id).Nodup) (htimes : ∀ e ∈ events, e.time.Ordinary)
    (hr : r ∈ events) (hreset : r.kind.isReset = true) (hout : resolve m events = .ok out) :
    resolve m (events.filter fun e => !precedes r e) =
      .ok (out.filter fun e => !precedes r e) := by
  have hrank : (rank r.type).isSome = true := by
    rw [isSome_rank, hreset, Bool.true_or]
  obtain ⟨before, after, hqueue⟩ := List.append_of_mem (mem_queue.mpr ⟨hr, hrank⟩)
  have hranked : ∀ e ∈ queue rank events, (rank e.type).isSome = true :=
    fun e he => (mem_queue.mp he).2
  have hstrict : (queue rank events).Pairwise fun a b => a.place rank < b.place rank :=
    queue_strict hids
  have htimely := timely_queue htimes
  rw [hqueue] at hranked hstrict htimely
  obtain ⟨hbefore, hafter⟩ := precedes_around hranked hstrict
  -- It is left to show that the visit of the queue without `before` gives the results of `after`.
  refine sweep_part (keepsIds_step m) (fun hstep => congrArg _ (precedes_of_step hstep)) hids
    (fun hvisit => ?_) hout
  rw [hqueue] at hvisit ⊢
  obtain ⟨u, t, ra, rb, hfront, hrest, rfl⟩ := visit_of_reset hreset htimely hvisit
  rw [filter_back (fun e he => by simp [hbefore e he]) (fun e he => by simp [hafter e he]),
    filter_back (fun e he => by simp [precedes_of_visit hbefore hfront e he])
      (fun e he => by simp [precedes_of_visit hafter hrest e he])]
  exact ⟨t, hrest⟩

/-- Plays and a reset, not in the order of time.  Before the reset the signal is incremented and set;
    of the two plays at its instant one has a smaller id. -/
def cleared : List Event :=
  [spin 4 3.0 (some 0.25) none, spin 1 0.0 (some 0.5) none, spin 0 0.5 none (some 0.75),
    spinReset 3 1.0, spin 5 1.0 (some 0.125) none, spin 2 1.0 none none]

/-- The first two plays are deleted, and the other three come out as before. -/
theorem cleared_barrier : ∃ out, resolve duet.signalMap cleared = .ok out ∧
    resolve duet.signalMap (cleared.filter fun e => !precedes (spinReset 3 1.0) e) =
      .ok (out.filter fun e => !precedes (spinReset 3 1.0) e) ∧
    (out.filter fun e => !precedes (spinReset 3 1.0) e).map Event.id = [4, 3, 5, 2] := by
  have hout : resolve duet.signalMap cleared =
      .ok ((resolve duet.signalMap cleared).toOption.getD []) := by decide +kernel
  have hcleared := resolve_of_reset (r := spinReset 3 1.0) (by decide) (by decide +kernel)
    (by decide +kernel) rfl hout
  exact ⟨_, hout, hcleared, by decide +kernel⟩

end Phase

end PulseTimeline
