/-
  The frequency of a pulse, without a sweep.

  1. **Specification** — `settingsUpTo` are the events of a list that set a frequency on a signal and
     are not later than a pulse.  They are compared by `SetBefore`: the instant, then initial
     frequencies before frequency sets, then the id.  `Inherits` says that a pulse has the frequency
     of the greatest of them, or, if there is none, the one that it had.

  2. **Greatest setting** — what the pass has come to know before a pulse is the frequency of the
     greatest setting (`inherits_frequencyBefore`); the settings at the instant of the pulse count,
     whatever their ids are, since the pass visits pulses last.

  3. **Pulses stay** — with distinct ids the pass removes no pulse, although it removes by id
     (`pulses_removeEvents`).

  4. **Law** — hence the pulses come out in order, each with the frequency that it inherits; pulses in
     hardware and delays come out as they were (`frequency_of_greatest`).
-/
import Mathlib.Data.List.MinMax
import PulseTimeline.Proofs.Removal

namespace PulseTimeline

/-! ## Specification -/

/-- Whether one setting of a frequency comes before another: at an earlier instant; at the same
    instant, an initial frequency before a frequency set; among equals, the one of smaller id. -/
def Event.SetBefore (f g : Event) : Prop :=
  f.time.key < g.time.key ∨ f.time.key = g.time.key ∧
    (f.kind.isInitial = true ∧ g.kind.isInitial = false ∨
      f.kind.isInitial = g.kind.isInitial ∧ f.id < g.id)

/-- The events of a list that set a frequency on a signal and are not later than `e`. -/
def settingsUpTo (events : List Event) (uid : SignalUid) (e : Event) : List Event :=
  events.filter fun f => (f.kind.setsOn uid).isSome && f.time.key ≤ e.time.key

/-- A pulse `e` on a signal gets its frequency from the greatest of the settings up to it; if there
    are none, it keeps the frequency `old`. -/
def Inherits (events : List Event) (uid : SignalUid) (e : Event) (old frequency : Option Float) :
    Prop :=
  (∃ f ∈ settingsUpTo events uid e, frequency = f.kind.setsOn uid ∧
    ∀ g ∈ settingsUpTo events uid e, g = f ∨ g.SetBefore f) ∨
  settingsUpTo events uid e = [] ∧ frequency = old

/-- A pulse `e'` is the pulse `e` but for its frequency.  A play or an acquisition on a signal that is
    not modulated in hardware inherits it, any other pulse keeps it. -/
def TunedAs (m : SignalMap) (events : List Event) (e e' : Event) : Prop :=
  ∃ activity pulse frequency, e.kind = .pulseStart activity pulse ∧
    e' = e.withPulse activity { pulse with oscillatorFrequency := frequency } ∧
    if activity = .delay ∨ m.inHardware pulse.signal = true then
      frequency = pulse.oscillatorFrequency
    else Inherits events pulse.signal e pulse.oscillatorFrequency frequency

/-- Whether the event starts to occupy a signal. -/
def Event.isPulse (e : Event) : Bool := e.kind.pulse?.isSome

namespace Frequency

/-! ## Greatest setting -/

/-- The pass visits initial frequencies before frequency sets. -/
theorem rank_of_setting {uid : SignalUid} {f : Event} (h : (f.kind.setsOn uid).isSome = true) :
    rank f.type = some (if f.kind.isInitial then -30 else -15) := by
  obtain ⟨id, time, kind⟩ := f
  cases kind <;> first | rfl | cases h

/-- Of two settings on a signal, the one with the lower place in the sweep comes before the other. -/
theorem setBefore_of_place_lt {uid : SignalUid} {f g : Event}
    (hf : (f.kind.setsOn uid).isSome = true) (hg : (g.kind.setsOn uid).isSome = true)
    (h : f.place rank < g.place rank) : f.SetBefore g := by
  rw [Event.place_lt_iff, rank_of_setting hf, rank_of_setting hg, Option.getD_some,
    Option.getD_some] at h
  rcases h with hlt | ⟨heq, hrank | ⟨hrank, hid⟩⟩
  · exact .inl hlt
  · refine .inr ⟨heq, .inl ?_⟩
    cases hfi : f.kind.isInitial <;> cases hgi : g.kind.isInitial <;> simp [hfi, hgi] at hrank ⊢
  · refine .inr ⟨heq, .inr ⟨?_, hid⟩⟩
    cases hfi : f.kind.isInitial <;> cases hgi : g.kind.isInitial <;> simp [hfi, hgi] at hrank ⊢

section Distinct

variable {events : List Event} {uid : SignalUid} {e : Event}

theorem mem_settingsUpTo {f : Event} : f ∈ settingsUpTo events uid e ↔
    f ∈ events ∧ (f.kind.setsOn uid).isSome = true ∧ f.time.key ≤ e.time.key := by
  unfold settingsUpTo
  rw [List.mem_filter, Bool.and_eq_true, decide_eq_true_eq]

/-- Before a play or an acquisition, the pass knows the frequency of the greatest setting. -/
theorem inherits_frequencyBefore (hids : (events.map Event.id).Nodup)
    (he : rank e.type = some 0) (old : Option Float) :
    Inherits events uid e old ((frequencyBefore events uid e).or old) := by
  -- The settings up to the pulse have no two places alike, so the greatest is one of them or there
  -- is none.
  cases hmax : (settingsUpTo events uid e).argmax (Event.place rank) with
  | none =>
      have hnil : settingsUpTo events uid e = [] := List.argmax_eq_none.mp hmax
      refine .inr ⟨hnil, ?_⟩
      have hnone : frequencyBefore events uid e = none := by
        refine frequencyBefore_eq_none he fun g hg hset hle => ?_
        have hmem : g ∈ settingsUpTo events uid e := mem_settingsUpTo.mpr ⟨hg, hset, hle⟩
        rw [hnil] at hmem
        cases hmem
      rw [hnone, Option.none_or]
  | some f =>
      have hf : f ∈ settingsUpTo events uid e := List.argmax_mem hmax
      obtain ⟨hmem, hset, hle⟩ := mem_settingsUpTo.mp hf
      obtain ⟨value, hvalue⟩ := Option.isSome_iff_exists.mp hset
      have hgreatest : ∀ g ∈ settingsUpTo events uid e, g.place rank ≤ f.place rank :=
        fun g hg => List.le_of_mem_argmax hg hmax
      have hbefore : frequencyBefore events uid e = some value :=
        frequencyBefore_eq_some hids he hmem hvalue hle fun g hg hgset hgle =>
          hgreatest g (mem_settingsUpTo.mpr ⟨hg, hgset, hgle⟩)
      refine .inl ⟨f, hf, by rw [hbefore, hvalue, Option.some_or], fun g hg => ?_⟩
      obtain ⟨hgmem, hgset, _⟩ := mem_settingsUpTo.mp hg
      rcases lt_or_eq_of_le (hgreatest g hg) with hlt | heq
      · exact .inr (setBefore_of_place_lt hgset hset hlt)
      · exact .inl (List.inj_on_of_nodup_map hids hgmem hmem (Event.id_eq_of_place_eq heq))

end Distinct

/-! ## Pulses stay -/

/-- An id is handled because of an event that is no pulse. -/
theorem handled_of_mem {m : SignalMap} {es : List Event} {ids : List Nat}
    (h : handledEvents m es = .ok ids) :
    ∀ i ∈ ids, ∃ f ∈ es, f.isPulse = false ∧ f.id = i := by
  intro i hi
  obtain ⟨f, hf, hcause, hid⟩ := exists_of_handled h i hi
  refine ⟨f, hf, ?_, hid⟩
  unfold Event.isPulse
  cases hk : f.kind <;> first | rfl | (rw [hk] at hcause; rcases hcause with h | h <;> cases h)

/-- With distinct ids, the pulses of a list are still there when what is handled is removed. -/
theorem pulses_removeEvents {m : SignalMap} {es : List Event} {ids : List Nat}
    (hids : (es.map Event.id).Nodup) (h : handledEvents m es = .ok ids) :
    (removeEvents ids es).filter Event.isPulse = es.filter Event.isPulse := by
  unfold removeEvents
  rw [List.filter_filter]
  refine List.filter_congr fun e he => ?_
  cases hpulse : e.isPulse with
  | false => rfl
  | true =>
      have hkept : e.id ∉ ids := by
        intro hmem
        obtain ⟨f, hf, hother, hid⟩ := handled_of_mem h e.id hmem
        rw [List.inj_on_of_nodup_map hids hf he hid, hpulse] at hother
        cases hother
      simp [hkept]

/-! ## Law -/

theorem isPulse_of_writtenAs {m : SignalMap} {events : List Event} {e e' : Event}
    (h : WrittenAs m events e e') : e'.isPulse = e.isPulse := by
  unfold WrittenAs at h
  split at h
  · rw [h]
  · rename_i hk
    obtain ⟨hardware, _, rfl⟩ := h
    unfold Event.isPulse
    rw [hk]
    rfl
  · rw [h]

theorem tunedAs_of_writtenAs {m : SignalMap} {events : List Event} {e e' : Event}
    (hids : (events.map Event.id).Nodup) (h : WrittenAs m events e e')
    (hpulse : e.isPulse = true) : TunedAs m events e e' := by
  obtain ⟨p, hp⟩ := Option.isSome_iff_exists.mp hpulse
  obtain ⟨activity, pulse⟩ := p
  have hk : e.kind = .pulseStart activity pulse := EventKind.pulse?_eq_some.mp hp
  have hself : e.withPulse activity pulse = e := by
    unfold Event.withPulse
    rw [← hk]
  by_cases hdelay : activity = .delay
  · -- The pass does not look at delays.
    subst hdelay
    have hsame : e' = e := by
      unfold WrittenAs at h
      rw [hk] at h
      exact h
    refine ⟨.delay, pulse, pulse.oscillatorFrequency, hk, by rw [hsame, ← hself]; rfl, ?_⟩
    rw [if_pos (.inl rfl)]
  · obtain ⟨hardware, hhw, rfl⟩ := h.of_pulse hk hdelay
    have hin := inHardware_of_isHardware hhw
    cases hardware with
    | true =>
        refine ⟨activity, pulse, pulse.oscillatorFrequency, hk, rfl, ?_⟩
        rw [if_pos (.inr hin)]
    | false =>
        have hrank : rank e.type = some 0 := by
          unfold Event.type
          rw [hk]
          cases activity with
          | play => rfl
          | delay => exact absurd rfl hdelay
          | acquire => rfl
        refine ⟨activity, pulse, _, hk, rfl, ?_⟩
        -- In software, what the sweep knew before the pulse is written on it.
        rw [if_neg (by rw [hin]; simpa using hdelay)]
        exact inherits_frequencyBefore hids hrank pulse.oscillatorFrequency

/-- Related lists whose related elements are selected alike have related selections. -/
theorem forall₂_filter {α : Type} {P : α → α → Prop} {p : α → Bool} {xs ys : List α}
    (h : List.Forall₂ P xs ys) (hp : ∀ x y, P x y → p y = p x) :
    List.Forall₂ (fun x y => P x y ∧ p x = true) (xs.filter p) (ys.filter p) := by
  induction h with
  | nil => exact List.Forall₂.nil
  | @cons x y xs ys hxy _ ih =>
      cases hx : p x with
      | true =>
          rw [List.filter_cons_of_pos hx, List.filter_cons_of_pos ((hp x y hxy).trans hx)]
          exact .cons ⟨hxy, hx⟩ ih
      | false =>
          rw [List.filter_cons_of_neg (by rw [hx]; decide),
            List.filter_cons_of_neg (by rw [hp x y hxy, hx]; decide)]
          exact ih

/-- With distinct ids, all pulses of a list come out of the frequency pass, in order.  A play or an
    acquisition in software comes out with the frequency of the greatest event that sets one on its
    signal and is not later, or with its own if there is none; any other pulse with its own. -/
theorem frequency_of_greatest {m : SignalMap} {events out : List Event}
    (hids : (events.map Event.id).Nodup) (h : (resolve m events).outcome = .ok out) :
    List.Forall₂ (TunedAs m events) (events.filter Event.isPulse) (out.filter Event.isPulse) := by
  rw [outcome_resolve] at h
  obtain ⟨es, hwritten, h⟩ := bind_ok h
  obtain ⟨ids, hhandled, h⟩ := bind_ok h
  have hremove : removeEvents ids es = out := Except.ok.inj h
  rw [← hremove, pulses_removeEvents (nodup_written hwritten hids) hhandled]
  refine (forall₂_filter (written_spec hids hwritten) fun e e' => isPulse_of_writtenAs).imp ?_
  rintro e e' ⟨hspec, hpulse⟩
  exact tunedAs_of_writtenAs hids hspec hpulse

/-- Events in no order, on the signals of `duet`.  The play and the acquisition in software start at
    the instant of a frequency set of larger id; an earlier play comes before every setting. -/
def crowd : List Event :=
  [⟨1, ⟨(1.0 : Float).toBits⟩, .pulseStart .play (.bare ⟨⟨0⟩⟩ none)⟩,
    ⟨0, ⟨(1.0 : Float).toBits⟩, .setFrequencyStart ⟨⟨⟨5⟩⟩, [⟨⟨0⟩⟩], 2e6, none, none, 0⟩⟩,
    ⟨7, ⟨(1.0 : Float).toBits⟩, .setFrequencyStart ⟨⟨⟨5⟩⟩, [⟨⟨1⟩⟩, ⟨⟨0⟩⟩], 3e6, none, none, 1⟩⟩,
    ⟨9, ⟨(1.0 : Float).toBits⟩, .initialFrequency ⟨⟨⟨5⟩⟩, [⟨⟨0⟩⟩], 4e6, none, none, 0⟩⟩,
    ⟨2, ⟨(1.0 : Float).toBits⟩, .pulseStart .play
      { PulseEvent.bare ⟨⟨1⟩⟩ none with oscillatorFrequency := some 5e6 }⟩,
    ⟨3, ⟨(1.0 : Float).toBits⟩, .pulseStart .delay (.bare ⟨⟨0⟩⟩ none)⟩,
    ⟨4, ⟨(0.5 : Float).toBits⟩, .pulseStart .play
      { PulseEvent.bare ⟨⟨0⟩⟩ none with oscillatorFrequency := some 6e6 }⟩,
    ⟨5, ⟨(1.0 : Float).toBits⟩, .pulseStart .acquire (.bare ⟨⟨0⟩⟩ none)⟩]

/-- What the play and the acquisition in software inherit is the frequency that was set last. -/
theorem crowd_frequencies : ∃ out, (resolve duet.signalMap crowd).outcome = .ok out ∧
    List.Forall₂ (TunedAs duet.signalMap crowd) (crowd.filter Event.isPulse)
      (out.filter Event.isPulse) ∧
    (out.filter Event.isPulse).map (fun e => (e.id, e.kind.pulse?.bind fun p =>
      p.2.oscillatorFrequency)) =
        [(1, some 3e6), (2, some 5e6), (3, none), (4, some 6e6), (5, some 3e6)] := by
  have hout : (resolve duet.signalMap crowd).outcome =
      .ok ((resolve duet.signalMap crowd).outcome.toOption.getD []) := by decide +kernel
  exact ⟨_, hout, frequency_of_greatest (by decide) hout, by decide +kernel⟩

end Frequency

end PulseTimeline
