/-
  The phase of a software oscillator in closed form.

  1. **Past** — the resets and pulses up to some moment, in the order of the pass.  From this list
     alone the phase is read off: `lastReset` and `lastSet` are times, `carriedPhase` starts from
     the last set since the last reset and adds the increments since then.

  2. **One event more** — how each of them changes with an event at the end of the past.

  3. **Invariant** — what the pass knows of a software signal is `known`, as read off the past.  A
     step keeps this (`view_step`), hence a visit does (`view_visit`).

  4. **Closed form** — so the phase that the pass writes on a pulse is that of the past up to the
     pulse (`oscillatorPhase_closed_form`).
-/
import Mathlib.Data.List.DropRight
import PulseTimeline.Proofs.PhasePass
import PulseTimeline.Proofs.Pipeline

namespace PulseTimeline

/-- What an event sets the phase on a signal to. -/
def EventKind.phaseSetOn? (uid : SignalUid) : EventKind → Option Float
  | .pulseStart _ pulse => if pulse.signal = uid then pulse.phaseSet else none
  | _ => none

/-- What an event adds to the phase on a signal. -/
def EventKind.phaseIncrementOn? (uid : SignalUid) : EventKind → Option Float
  | .pulseStart _ pulse => if pulse.signal = uid then pulse.phaseIncrement else none
  | _ => none

namespace Phase

/-! ## Past -/

/-- The time of the last reset. -/
def lastReset (past : List Event) : Float :=
  ((past.filter fun e => e.kind.isReset).getLast?.map fun e => e.time.toFloat).getD 0.0

/-- The time of the last pulse that sets the phase on a signal. -/
def lastSet (uid : SignalUid) (past : List Event) : Float :=
  ((past.filter fun e => (e.kind.phaseSetOn? uid).isSome).getLast?.map fun e =>
    e.time.toFloat).getD 0.0

/-- The events after the last reset. -/
def sinceReset (past : List Event) : List Event := past.rtakeWhile fun e => !e.kind.isReset

/-- The events after the last reset and after the last pulse that sets the phase on a signal. -/
def sinceTurn (uid : SignalUid) (past : List Event) : List Event :=
  past.rtakeWhile fun e => !(e.kind.isReset || (e.kind.phaseSetOn? uid).isSome)

/-- The phase carried on a signal: what it was set to last since the last reset, and on top of it,
    from left to right, all increments after that. -/
def carriedPhase (uid : SignalUid) (past : List Event) : Float :=
  ((sinceTurn uid past).filterMap fun e => e.kind.phaseIncrementOn? uid).foldl (· + ·)
    (((sinceReset past).filterMap fun e => e.kind.phaseSetOn? uid).getLast?.getD 0.0)

/-- Whether the phase on a signal was ever set or incremented. -/
def touched (uid : SignalUid) (past : List Event) : Bool :=
  past.any fun e => (e.kind.phaseSetOn? uid).isSome || (e.kind.phaseIncrementOn? uid).isSome

/-- The time from which an oscillator turns: the last set or the last reset, whichever is later; on
    a signal that was never touched, the last reset. -/
def referenceTime (uid : SignalUid) (past : List Event) : Float :=
  if touched uid past then later (lastSet uid past) (lastReset past) else lastReset past

/-- What the pass knows of a signal after the past. -/
def known (uid : SignalUid) (past : List Event) : Option Running × Float :=
  (if touched uid past then some ⟨carriedPhase uid past, lastSet uid past⟩ else none,
    lastReset past)

/-! ## One event more -/

theorem getLast?_filter_concat {α : Type} (p : α → Bool) (l : List α) (a : α) :
    ((l ++ [a]).filter p).getLast? = if p a then some a else (l.filter p).getLast? := by
  rw [List.filter_append]
  cases h : p a <;> simp [h]

section Concat

variable {uid : SignalUid} {past : List Event} {e : Event}

/-- One event more: it is the last reset if it is one. -/
theorem lastReset_concat : lastReset (past ++ [e]) =
    if e.kind.isReset then e.time.toFloat else lastReset past := by
  unfold lastReset
  rw [getLast?_filter_concat]
  cases e.kind.isReset <;> rfl

/-- One event more: it is the last set if it sets a phase of the signal. -/
theorem lastSet_concat : lastSet uid (past ++ [e]) =
    if (e.kind.phaseSetOn? uid).isSome then e.time.toFloat else lastSet uid past := by
  unfold lastSet
  rw [getLast?_filter_concat]
  cases (e.kind.phaseSetOn? uid).isSome <;> rfl

/-- One event more: the signal is touched once it is set or incremented. -/
theorem touched_concat : touched uid (past ++ [e]) = (touched uid past ||
    ((e.kind.phaseSetOn? uid).isSome || (e.kind.phaseIncrementOn? uid).isSome)) := by
  unfold touched
  rw [List.any_append, List.any_cons, List.any_nil, Bool.or_false]

/-- One event more: a reset empties what counts since the last one. -/
theorem sinceReset_concat : sinceReset (past ++ [e]) =
    if e.kind.isReset then [] else sinceReset past ++ [e] := by
  unfold sinceReset
  rw [List.rtakeWhile_concat]
  cases e.kind.isReset <;> rfl

theorem sinceTurn_concat : sinceTurn uid (past ++ [e]) =
    if e.kind.isReset || (e.kind.phaseSetOn? uid).isSome then [] else sinceTurn uid past ++ [e] := by
  unfold sinceTurn
  rw [List.rtakeWhile_concat]
  cases e.kind.isReset || (e.kind.phaseSetOn? uid).isSome <;> rfl

/-- A reset clears the carried phase. -/
theorem carriedPhase_of_reset (hr : e.kind.isReset = true) :
    carriedPhase uid (past ++ [e]) = 0.0 := by
  unfold carriedPhase
  rw [sinceTurn_concat, sinceReset_concat, hr]
  rfl

/-- A set replaces the carried phase. -/
theorem carriedPhase_of_set (hr : e.kind.isReset = false) {value : Float}
    (hs : e.kind.phaseSetOn? uid = some value) : carriedPhase uid (past ++ [e]) = value := by
  have hlast : ((sinceReset (past ++ [e])).filterMap fun e =>
      e.kind.phaseSetOn? uid).getLast? = some value := by
    rw [sinceReset_concat, hr, if_neg (by simp), filterMap_concat, hs]
    exact List.getLast?_concat
  unfold carriedPhase
  rw [hlast, sinceTurn_concat, hs, hr]
  rfl

/-- Without a reset and a set, the increment of the event, if it has one, is added. -/
theorem carriedPhase_of_increment (hr : e.kind.isReset = false)
    (hs : e.kind.phaseSetOn? uid = none) : carriedPhase uid (past ++ [e]) =
      (e.kind.phaseIncrementOn? uid).toList.foldl (· + ·) (carriedPhase uid past) := by
  unfold carriedPhase
  rw [sinceTurn_concat, sinceReset_concat, hr, hs, if_neg (by simp), if_neg (by simp),
    filterMap_concat, filterMap_concat, hs, Option.toList_none, List.append_nil, List.foldl_append]

/-- An event that does nothing on the signal changes nothing. -/
theorem known_of_quiet (hr : e.kind.isReset = false) (hs : e.kind.phaseSetOn? uid = none)
    (hi : e.kind.phaseIncrementOn? uid = none) : known uid (past ++ [e]) = known uid past := by
  unfold known
  rw [touched_concat, carriedPhase_of_increment hr hs, lastSet_concat, lastReset_concat, hr, hs, hi]
  simp

end Concat

/-! ## Invariant -/

/-- Nothing in the past of an untouched signal turned it. -/
theorem eq_none_of_untouched {uid : SignalUid} {past : List Event}
    (h : touched uid past = false) :
    ∀ e ∈ past, e.kind.phaseSetOn? uid = none ∧ e.kind.phaseIncrementOn? uid = none := by
  simpa [touched] using h

/-- An untouched signal carries no phase. -/
theorem carriedPhase_of_untouched {uid : SignalUid} {past : List Event}
    (h : touched uid past = false) : carriedPhase uid past = 0.0 := by
  have hnone := eq_none_of_untouched h
  have hincrements : ((sinceTurn uid past).filterMap fun e => e.kind.phaseIncrementOn? uid) = [] :=
    List.filterMap_eq_nil_iff.mpr fun e he => (hnone e ((List.rtakeWhile_suffix _ _).mem he)).2
  have hsets : ((sinceReset past).filterMap fun e => e.kind.phaseSetOn? uid) = [] :=
    List.filterMap_eq_nil_iff.mpr fun e he => (hnone e ((List.rtakeWhile_suffix _ _).mem he)).1
  unfold carriedPhase
  rw [hincrements, hsets]
  rfl

theorem lastSet_of_untouched {uid : SignalUid} {past : List Event}
    (h : touched uid past = false) : lastSet uid past = 0.0 := by
  have hnone := eq_none_of_untouched h
  have hsets : (past.filter fun e => (e.kind.phaseSetOn? uid).isSome) = [] :=
    List.filter_eq_nil_iff.mpr fun e he => by simp [(hnone e he).1]
  unfold lastSet
  rw [hsets]
  rfl

/-- The running phase that a pulse starts from, touched or not. -/
theorem getD_known (uid : SignalUid) (past : List Event) :
    (known uid past).1.getD .fresh = ⟨carriedPhase uid past, lastSet uid past⟩ := by
  unfold known
  cases h : touched uid past with
  | true => rfl
  | false =>
      rw [carriedPhase_of_untouched h, lastSet_of_untouched h]
      rfl

theorem known_of_reset {uid : SignalUid} {past : List Event} {e : Event}
    (hr : e.kind.isReset = true) : known uid (past ++ [e]) =
      ((known uid past).1.map fun r => { r with carried := 0.0 }, e.time.toFloat) := by
  obtain ⟨id, time, kind⟩ := e
  have hs : kind.phaseSetOn? uid = none ∧ kind.phaseIncrementOn? uid = none := by
    cases kind <;> first | exact ⟨rfl, rfl⟩ | cases hr
  unfold known
  rw [carriedPhase_of_reset hr, lastSet_concat, touched_concat, lastReset_concat, hr, hs.1, hs.2]
  cases touched uid past <;> rfl

/-- After a play of the signal the pass knows what the play made of it. -/
theorem known_of_pulse {uid : SignalUid} {past : List Event} {e : Event} {activity : Activity}
    {pulse : PulseEvent} (hk : e.kind = .pulseStart activity pulse) (hsignal : pulse.signal = uid) :
    known uid (past ++ [e]) =
      (Running.advanced (known uid past).1 e.time.toFloat pulse, lastReset past) := by
  have hr : e.kind.isReset = false := by rw [hk]; rfl
  have hset : e.kind.phaseSetOn? uid = pulse.phaseSet := by rw [hk]; exact if_pos hsignal
  have hincrement : e.kind.phaseIncrementOn? uid = pulse.phaseIncrement := by
    rw [hk]
    exact if_pos hsignal
  unfold Running.advanced
  cases hs : pulse.phaseSet with
  | some value =>
      unfold known
      rw [carriedPhase_of_set hr (hset.trans hs), lastSet_concat, touched_concat, lastReset_concat,
        hr, hset, hs]
      simp
  | none =>
      cases hi : pulse.phaseIncrement with
      | some value =>
          rw [getD_known]
          unfold known
          rw [carriedPhase_of_increment hr (hset.trans hs), lastSet_concat, touched_concat,
            lastReset_concat, hr, hset, hs, hincrement, hi]
          simp
      | none => exact known_of_quiet hr (hset.trans hs) (hincrement.trans hi)

/-- What an event does on a signal in software, the past says too. -/
theorem view_step {m : SignalMap} {uid : SignalUid} (hsoft : m.isHardware uid = .ok false)
    {past : List Event} {s after : State} {e e' : Event} (hview : s.view uid = known uid past)
    (h : step m s e = .ok (after, e')) : after.view uid = known uid (past ++ [e]) := by
  rcases step_cases h with ⟨hr, rfl, _⟩ | ⟨activity, pulse, pulse', hk, hres, _⟩ |
    ⟨hr, hp, rfl, _⟩
  · rw [known_of_reset hr, ← hview]
    simp only [State.view, State.reset, Table.get?_mapValues]
  · by_cases hsignal : pulse.signal = uid
    · rw [known_of_pulse hk hsignal, ← hview]
      rcases resolvePulse_ok.mp hres with ⟨hhw, _⟩ | ⟨_, _, _, rfl, _⟩
      · rw [hsignal, hsoft] at hhw
        cases hhw
      · have hreset : s.resetTime = lastReset past := congrArg Prod.snd hview
        rw [State.view, get?_advance, if_pos hsignal.symm, resetTime_advance, hreset]
        rfl
    · rw [resolvePulse_of_ne hsignal hres, hview]
      refine (known_of_quiet ?_ ?_ ?_).symm
      · rw [hk]; rfl
      · rw [hk]; exact if_neg hsignal
      · rw [hk]; exact if_neg hsignal
  · rw [hview]
    obtain ⟨id, time, kind⟩ := e
    refine (known_of_quiet hr ?_ ?_).symm <;> cases kind <;> first | rfl | cases hp

/-- What the pass knows of a software signal is read off the past. -/
theorem view_visit {m : SignalMap} {uid : SignalUid} (hsoft : m.isHardware uid = .ok false)
    {past rs : List Event} {s : State} (h : visit (step m) .start past = .ok (s, rs)) :
    s.view uid = known uid past := by
  induction past using List.reverseRecOn generalizing s rs with
  | nil =>
      cases h
      rfl
  | append_singleton past e ih =>
      obtain ⟨between, ra, rb, hpast, hlast, -⟩ := visit_append_ok.mp h
      obtain ⟨after, e', rs', hstep, hdone, -⟩ := visit_cons_ok.mp hlast
      cases hdone
      exact view_step hsoft (ih hpast) hstep

/-! ## Closed form -/

/-- The phase the pass computes depends on what it knows of the signal alone. -/
theorem phaseAt_of_view {uid : SignalUid} {past : List Event} {s : State}
    (hview : s.view uid = known uid past) (frequency time : Float) :
    s.phaseAt uid frequency time =
      turned time (referenceTime uid past) frequency (carriedPhase uid past) := by
  have hget : s.signals.get? uid = (known uid past).1 := congrArg Prod.fst hview
  have hreset : s.resetTime = lastReset past := congrArg Prod.snd hview
  unfold State.phaseAt referenceTime
  rw [hget, hreset]
  unfold known
  cases h : touched uid past with
  | true => rfl
  | false =>
      rw [carriedPhase_of_untouched h]
      rfl

/-- Where no reset is at a negative time, the oscillator turns from the later of the last set and
    the last reset, whether the signal was touched or not. -/
theorem referenceTime_eq_later {uid : SignalUid} {past : List Event}
    (h : touched uid past = true ∨ lastReset past = 0.0 ∨
      (lastReset past).isNaN = false ∧ 0.0 < lastReset past) :
    referenceTime uid past = later (lastSet uid past) (lastReset past) := by
  unfold referenceTime
  cases ht : touched uid past with
  | true => rfl
  | false =>
      rw [lastSet_of_untouched ht, if_neg (by simp)]
      rcases h with h | h | ⟨hnan, hpos⟩
      · rw [ht] at h
        cases h
      · rw [h]
        decide +kernel
      · have hzero : (0.0 : Float).isNaN = false := by decide +kernel
        unfold later
        rw [hzero, hnan, if_neg (by simp), if_neg (by simp), if_pos hpos]

/-- Related lists have related elements at every index. -/
theorem getElem?_of_forall₂ {α β : Type} {P : α → β → Prop} {xs : List α} {ys : List β}
    (h : List.Forall₂ P xs ys) {i : Nat} {x : α} (hx : xs[i]? = some x) :
    ∃ y, ys[i]? = some y ∧ P x y := by
  induction h generalizing i with
  | nil => cases hx
  | @cons a b xs ys hab _ ih =>
      cases i with
      | zero =>
          cases hx
          exact ⟨b, rfl, hab⟩
      | succ i => exact ih hx

/-- The phase that the pass writes on a pulse in software which is not read out, from the resets
    and pulses up to it in the order of time, resets before pulses, and ids.  It is what is carried
    and what the oscillator has turned since its reference: the later one of the last set and the
    last reset, the other one if one of them is no number.  On a signal that was never touched the
    reference is the last reset, which is the later one unless it is at a negative time. -/
theorem oscillatorPhase_closed_form {m : SignalMap} {events out before after : List Event}
    {e : Event} {activity : Activity} {pulse : PulseEvent} {i : Nat}
    (hids : (events.map Event.id).Nodup) (hout : resolve m events = .ok out)
    (hperm : (before ++ e :: after).Perm
      (events.filter fun f => f.kind.isReset || f.kind.pulse?.isSome))
    (hsorted : (before ++ e :: after).Pairwise fun a b => a.place rank ≤ b.place rank)
    (he : events[i]? = some e) (hk : e.kind = .pulseStart activity pulse)
    (hsoft : m.isHardware pulse.signal = .ok false)
    (hread : m.isReadout pulse.signal = .ok false) :
    let past := before ++ [e]
    let t := e.time.toFloat
    let f := pulse.oscillatorFrequency.getD 0.0
    let c := carriedPhase pulse.signal past
    let set := lastSet pulse.signal past
    let reset := lastReset past
    ∃ (pulse' : PulseEvent) (reference : Float),
      out[i]? = some (e.withPulse activity pulse') ∧
      pulse'.oscillatorPhase = some ((t - reference) * 2.0 * 3.141592653589793 * f + c) ∧
      (touched pulse.signal past = true ∨ reset = 0.0 ∨ reset.isNaN = false ∧ 0.0 < reset →
        reference = if set.isNaN then reset else if reset.isNaN then set
          else if set < reset then reset else set) ∧
      (touched pulse.signal past = false → reference = reset) := by
  intro past t f c set reset
  have hranked : (events.filter fun f => f.kind.isReset || f.kind.pulse?.isSome) =
      events.filter fun f => (rank f.type).isSome :=
    List.filter_congr fun f _ => (isSome_rank f).symm
  have hqueue : before ++ e :: after = queue rank events :=
    eq_queue hids (hranked ▸ hperm) hsorted
  have hbefore : ((queue rank events).filter fun f => f.place rank < e.place rank) = before := by
    rw [← hqueue]
    exact filter_front (hqueue ▸ queue_strict hids)
  obtain ⟨e', he', hresult⟩ := getElem?_of_forall₂ (sweep_result hids hout) he
  have hrank : (rank e.type).isSome = true := by
    rw [isSome_rank, hk]
    rfl
  rw [if_pos hrank, hbefore] at hresult
  obtain ⟨s, s', ws, hvisit, hstep⟩ := hresult
  have hview : s'.view pulse.signal = known pulse.signal past :=
    view_step hsoft (view_visit hsoft hvisit) hstep
  rw [step_pulse hk] at hstep
  obtain ⟨⟨_, pulse'⟩, hres, hstep⟩ := bind_ok hstep
  cases hstep
  refine ⟨pulse', referenceTime pulse.signal past, he', ?_, referenceTime_eq_later,
    fun huntouched => if_neg (ne_true_of_eq_false huntouched)⟩
  rcases resolvePulse_ok.mp hres with ⟨hhw, _⟩ | ⟨_, readout, hreadout, _, rfl⟩
  · rw [hsoft] at hhw
    cases hhw
  · rw [hread] at hreadout
    cases hreadout
    exact congrArg some (phaseAt_of_view hview f t)

/-- A play on the first signal of `duet`, `seconds` after the start. -/
def spin (id : Nat) (seconds : Float) (increment set : Option Float) : Event where
  id := id
  time := ⟨seconds.toBits⟩
  kind := .pulseStart .play
    { PulseEvent.bare ⟨⟨0⟩⟩ none with
      phaseIncrement := increment, phaseSet := set, oscillatorFrequency := some 1e6 }

/-- A reset, `seconds` after the start. -/
def spinReset (id : Nat) (seconds : Float) : Event :=
  ⟨id, ⟨seconds.toBits⟩, .resetSoftwarePhase none⟩

/-- Plays and a reset, not in the order of time; the play at the instant of the reset has an
    increment which its set discards. -/
def spins : List Event :=
  [spin 3 3.0 (some 0.25) none, spin 0 0.0 (some 0.5) none, spin 2 1.0 (some 9.0) (some 0.75),
    spinReset 1 1.0]

/-- At three seconds, two after the reset and the set, the oscillator of a megahertz has turned two
    million times; it carries the set and one increment. -/
theorem spins_closed_form : ∃ out pulse', resolve duet.signalMap spins = .ok out ∧
    out[0]? = some ((spin 3 3.0 (some 0.25) none).withPulse .play pulse') ∧
    pulse'.oscillatorPhase = some ((3.0 - 1.0) * 2.0 * 3.141592653589793 * 1e6 + 1.0) ∧
    pulse'.oscillatorPhase = some 12566371.614359172 := by
  have hout : resolve duet.signalMap spins =
      .ok ((resolve duet.signalMap spins).toOption.getD []) := by decide +kernel
  have hperm : ([spin 0 0.0 (some 0.5) none, spinReset 1 1.0, spin 2 1.0 (some 9.0) (some 0.75)] ++
      spin 3 3.0 (some 0.25) none :: []).Perm
        (spins.filter fun f => f.kind.isReset || f.kind.pulse?.isSome) := by decide +kernel
  obtain ⟨pulse', reference, hget, hphase, hlater, -⟩ := oscillatorPhase_closed_form (by decide)
    hout hperm (by decide +kernel) (rfl : spins[0]? = some _) rfl rfl rfl
  have hreference : reference = 1.0 := (hlater (by decide +kernel)).trans (by decide +kernel)
  rw [hreference] at hphase
  exact ⟨_, pulse', hout, hget, hphase.trans (by decide +kernel), hphase.trans (by decide +kernel)⟩

end Phase

end PulseTimeline
