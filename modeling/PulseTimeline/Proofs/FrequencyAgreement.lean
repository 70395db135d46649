/-
  The frequencies on the pulses agree with the frequency history.

  1. **Specification** — `Agree` says what a pulse on a signal with given changes carries, and what
     the history answers: at the latest time of a change, a pulse goes by the last set, or by the
     last initial frequency if nothing is set then, and the history by the last change of either
     kind.

  2. **Heard** — what is heard of a timeline are its plays and acquisitions with their frequencies.
     Before the frequency pass they are those of the tree (`heard_flatten`), and nothing behind the
     pass touches them (`heard_resolveEvents`).

  3. **Agreement** — so each play or acquisition of the tree is heard with a frequency that agrees
     with the history (`frequencies_agree`).
-/
import PulseTimeline.Proofs.FrequencyBefore
import PulseTimeline.Proofs.Interference
import PulseTimeline.Proofs.Sightings

namespace PulseTimeline

/-! ## Specification -/

/-- What a pulse at time `t` on a signal with the changes `cs` has to carry, and what the history
    has to answer.  The latest time of a change decides. -/
def Agree (cs : List Change) (t : Int) (pulse history : Option Float) : Prop :=
  match latestBy t (cs.map Change.time) with
  | none => pulse = none ∧ history = none
  | some s =>
      pulse = setWins (cs.filter fun c => c.time = s) ∧
      history = lastWins (cs.filter fun c => c.time = s) ∧
      (NoInitialAfterSet (cs.filter fun c => c.time = s) → pulse = history)

/-! ## What is heard -/

/-- A play or an acquisition of a timeline, with the frequency that it carries. -/
structure Heard where
  time : Seconds
  activity : Activity
  signal : SignalUid
  frequency : Option Float
deriving DecidableEq

/-- The play or the acquisition that an event starts. -/
def Event.heard? (e : Event) : Option Heard :=
  match e.kind with
  | .pulseStart .play pulse => some ⟨e.time, .play, pulse.signal, pulse.oscillatorFrequency⟩
  | .pulseStart .acquire pulse => some ⟨e.time, .acquire, pulse.signal, pulse.oscillatorFrequency⟩
  | _ => none

/-- What is heard comes from the start of a play or an acquisition. -/
theorem heard?_eq_some {e : Event} {r : Heard} (h : e.heard? = some r) :
    ∃ activity pulse, e.kind = .pulseStart activity pulse ∧ activity ≠ .delay ∧
      r = ⟨e.time, activity, pulse.signal, pulse.oscillatorFrequency⟩ := by
  obtain ⟨id, time, kind⟩ := e
  cases kind with
  | pulseStart activity pulse =>
      cases activity with
      | play =>
          cases h
          exact ⟨.play, pulse, rfl, by decide, rfl⟩
      | delay => cases h
      | acquire =>
          cases h
          exact ⟨.acquire, pulse, rfl, by decide, rfl⟩
  | _ => cases h

/-- A play or an acquisition of a tree in seconds, with a frequency. -/
def Sounding.heard (tick : Float) (frequency : Option Float) (n : Sounding) : Heard :=
  ⟨.ofTicks tick n.start, n.activity, n.signal, frequency⟩

/-- What a cue is heard as. -/
def Cue.heard? (time : Seconds) : Cue → Option Heard
  | .sounding activity signal frequency => some ⟨time, activity, signal, frequency⟩
  | .change .. => none

theorem heard?_eq_cue (e : Event) : e.heard? = e.cue?.bind fun c => c.2.heard? c.1 := by
  obtain ⟨id, time, kind⟩ := e
  cases kind with
  | pulseStart activity pulse => cases activity <;> rfl
  | _ => rfl

theorem heard_cuesOf (tick : Float) (rs : List (Int × NodeKind)) :
    (cuesOf rs).filterMap (fun c => c.2.heard? (.ofTicks tick c.1)) =
      (rs.filterMap fun n => n.2.sounding? n.1).map (Sounding.heard tick none) := by
  induction rs with
  | nil => rfl
  | cons n rs ih =>
      obtain ⟨start, kind⟩ := n
      have hsettings : ∀ (initial : Bool) (settings : List FrequencySetting),
          ((settings.map fun st => Cue.change initial st.oscillator.signals st.value).map fun c =>
            (start, c)).filterMap (fun c => c.2.heard? (Seconds.ofTicks tick c.1)) = [] := by
        intro initial settings
        refine List.filterMap_eq_nil_iff.mpr fun c hc => ?_
        obtain ⟨cue, hcue, rfl⟩ := List.mem_map.mp hc
        obtain ⟨st, _, rfl⟩ := List.mem_map.mp hcue
        rfl
      have hcons : cuesOf ((start, kind) :: rs) =
          (kind.cues.map fun c => (start, c)) ++ cuesOf rs := rfl
      rw [hcons, List.filterMap_append, ih, List.filterMap_cons]
      cases kind with
      | setFrequency owner settings index => exact congrArg (· ++ _) (hsettings false settings)
      | initialFrequency settings => exact congrArg (· ++ _) (hsettings true settings)
      | _ => rfl

/-- The flattened experiment plays and acquires what its tree does, as yet without frequencies. -/
theorem heard_flatten {x : Experiment} {tick : Float} {o : LoweringOptions} {events : List Event}
    (hexpand : o.expandLoops = true) (h : x.flatten tick o = .ok events) :
    events.filterMap Event.heard? = x.soundings.map (Sounding.heard tick none) := by
  have hcues : events.filterMap Event.heard? =
      (events.filterMap Event.cue?).filterMap fun c => c.2.heard? c.1 := by
    rw [List.filterMap_filterMap]
    exact List.filterMap_congr fun e _ => heard?_eq_cue e
  rw [hcues, cues_flatten hexpand h, List.filterMap_map]
  exact heard_cuesOf tick x.reached

/-- The phase pass leaves the frequencies of pulses alone. -/
theorem heard_phases {m : SignalMap} {events out : List Event}
    (h : Phase.resolve m events = .ok out) :
    out.filterMap Event.heard? = events.filterMap Event.heard? := by
  have hphases : out.map Event.heard? = events.map Event.heard? := by
    refine sweep_invariant ?_ h
    intro s e after e' hstep
    rcases Phase.step_cases hstep with ⟨_, _, rfl⟩ | ⟨activity, pulse, pulse', hk, hres, rfl⟩ |
      ⟨_, _, _, rfl⟩
    · rfl
    · have hsignal := Phase.signal_resolvePulse hres
      have hfrequency : pulse'.oscillatorFrequency = pulse.oscillatorFrequency := by
        rcases Phase.resolvePulse_ok.mp hres with ⟨_, _, _, rfl⟩ | ⟨_, _, _, _, rfl⟩ <;> rfl
      unfold Event.heard? Event.withPulse
      rw [hk]
      cases activity <;> simp only [hsignal, hfrequency]
    · rfl
  have hid := congrArg (List.filterMap id) hphases
  rwa [List.filterMap_map, List.filterMap_map] at hid

/-- What is removed is not heard. -/
theorem heard_removeEvents {m : SignalMap} {events : List Event} {ids : List Nat}
    (hids : (events.map Event.id).Nodup) (hends : EndsNameNoEnds events)
    (h : handledEvents m events = .ok ids) :
    (removeEvents ids events).filterMap Event.heard? = events.filterMap Event.heard? := by
  unfold removeEvents
  rw [List.filterMap_filter]
  refine List.filterMap_congr fun e he => ?_
  by_cases hmem : e.id ∈ ids
  · have hused := (mem_handledEvents hids hends h he).mp hmem
    rw [if_neg (by simpa using hmem)]
    cases hheard : e.heard? with
    | none => rfl
    | some r =>
        obtain ⟨_, pulse, hk, _, _⟩ := heard?_eq_some hheard
        have hturns : e.kind.turns pulse.signal = true := by
          rw [hk]
          exact decide_eq_true rfl
        exact absurd hused (not_usedUp_of_turns hturns)
  · rw [if_pos (by simpa using hmem)]

/-- Nothing behind the frequency pass touches what is heard. -/
theorem heard_resolveEvents {m : SignalMap} {events out : List Event} (hflat : Flattened events)
    (h : resolveEvents m events = .ok out) :
    ∃ es, Frequency.written m events = .ok es ∧
      out.filterMap Event.heard? = es.filterMap Event.heard? := by
  obtain ⟨es, ids, hwritten, hhandled, hphase⟩ := resolveEvents_ok h
  have hflat' := hflat.written hwritten
  refine ⟨es, hwritten, ?_⟩
  rw [heard_phases hphase, heard_removeEvents hflat'.nodup hflat'.endsNameNoEnds hhandled]

/-- Two lists whose elements correspond are seen alike, if corresponding elements are. -/
theorem forall₂_filterMap {α β : Type} {W : α → α → Prop} {f : α → Option β} {γ : Type}
    {g : γ → β} {R : γ → β → Prop} {as bs : List α} {cs : List γ} (hW : List.Forall₂ W as bs)
    (hcs : as.filterMap f = cs.map g) (hnone : ∀ a ∈ as, ∀ b, W a b → f a = none → f b = none)
    (hsome : ∀ a ∈ as, ∀ b, W a b → ∀ c ∈ cs, f a = some (g c) → ∃ r, f b = some r ∧ R c r) :
    List.Forall₂ R cs (bs.filterMap f) := by
  induction hW generalizing cs with
  | nil =>
      rw [List.filterMap_nil, eq_comm, List.map_eq_nil_iff] at hcs
      subst hcs
      exact List.Forall₂.nil
  | @cons a b as bs hab _ ih =>
      have hnone' := fun a' ha' => hnone a' (List.mem_cons_of_mem _ ha')
      cases hfa : f a with
      | none =>
          rw [List.filterMap_cons_none hfa] at hcs
          rw [List.filterMap_cons_none (hnone a List.mem_cons_self b hab hfa)]
          exact ih hcs hnone' fun a' ha' => hsome a' (List.mem_cons_of_mem _ ha')
      | some y =>
          rw [List.filterMap_cons_some hfa] at hcs
          cases cs with
          | nil => cases hcs
          | cons c cs =>
              rw [List.map_cons, List.cons.injEq] at hcs
              obtain ⟨hy, hcs⟩ := hcs
              obtain ⟨r, hr, hR⟩ := hsome a List.mem_cons_self b hab c List.mem_cons_self (hy ▸ hfa)
              rw [List.filterMap_cons_some hr]
              refine List.Forall₂.cons hR (ih hcs hnone' fun a' ha' b' hab' c' hc' => ?_)
              exact hsome a' (List.mem_cons_of_mem _ ha') b' hab' c' (List.mem_cons_of_mem _ hc')

/-! ## Agreement -/

theorem heard?_eq_none_of_written {m : SignalMap} {events : List Event} {e e' : Event}
    (h : Frequency.WrittenAs m events e e') (hnone : e.heard? = none) : e'.heard? = none := by
  obtain ⟨id, time, kind⟩ := e
  have hsame : e' = ⟨id, time, kind⟩ → e'.heard? = none := by
    rintro rfl
    exact hnone
  cases kind with
  | pulseStart activity pulse =>
      cases activity with
      | play => cases hnone
      | delay => exact hsame h
      | acquire => cases hnone
  | _ => exact hsame h

theorem heard?_withPulse (e : Event) {activity : Activity} (pulse : PulseEvent)
    (h : activity ≠ .delay) : (e.withPulse activity pulse).heard? =
      some ⟨e.time, activity, pulse.signal, pulse.oscillatorFrequency⟩ := by
  cases activity with
  | play => rfl
  | delay => exact absurd rfl h
  | acquire => rfl

/-- On a play or an acquisition without a frequency, the frequency pass writes the one that was set
    before, if the signal is in software. -/
theorem heard?_of_written {m : SignalMap} {events : List Event} {tick : Float} {e e' : Event}
    {n : Sounding} (h : Frequency.WrittenAs m events e e')
    (hheard : e.heard? = some (n.heard tick none)) :
    e.time = .ofTicks tick n.start ∧ Frequency.rank e.type = some 0 ∧
      ∃ hardware, m.isHardware n.signal = .ok hardware ∧
        e'.heard? = some (n.heard tick
          (if hardware then none else Frequency.frequencyBefore events n.signal e)) := by
  obtain ⟨_, pulse, hk, hdelay, hr⟩ := heard?_eq_some hheard
  obtain ⟨start, activity, _⟩ := n
  obtain ⟨htime, rfl, rfl, hfrequency⟩ := Heard.mk.inj hr
  refine ⟨htime.symm, ?_, ?_⟩
  · unfold Event.type
    rw [hk]
    cases activity with
    | play => rfl
    | delay => exact absurd rfl hdelay
    | acquire => rfl
  · obtain ⟨hardware, hhw, rfl⟩ := h.of_pulse hk hdelay
    refine ⟨hardware, hhw, ?_⟩
    rw [heard?_withPulse e _ hdelay]
    unfold Sounding.heard
    cases hardware with
    | true => simp only [if_true, ← htime, ← hfrequency]
    | false => simp only [Bool.false_eq_true, if_false, ← htime, ← hfrequency, Option.or_none]

theorem start_mem_reached {x : Experiment} {n : Sounding} (h : n ∈ x.soundings) :
    n.start ∈ x.reached.map Prod.fst := by
  unfold Experiment.soundings at h
  obtain ⟨⟨start, kind⟩, hmem, hn⟩ := List.mem_filterMap.mp h
  have hstart : n.start = start := by
    cases kind <;> cases hn <;> rfl
  rw [hstart]
  exact List.mem_map_of_mem hmem

/-- A pulse that carries the winner by the rule for pulses agrees with the history. -/
theorem agree_frequencyAt? (x : Experiment) (uid : SignalUid) (t : Int) :
    Agree (x.changes uid) t
      ((latestBy t ((x.changes uid).map Change.time)).bind fun s =>
        setWins ((x.changes uid).filter fun c => c.time = s))
      (x.frequencyHistory.frequencyAt? uid t) := by
  rw [frequencyAt?_eq]
  unfold Agree
  cases latestBy t ((x.changes uid).map Change.time) with
  | none => exact ⟨rfl, rfl⟩
  | some s => exact ⟨rfl, rfl, setWins_eq_lastWins⟩

/-- How a play or an acquisition of the tree is heard: when and what it is in the tree, with a
    frequency that agrees with the history.  In hardware there is no frequency on either side. -/
structure Experiment.HeardAs (x : Experiment) (tick : Float) (n : Sounding) (e : Heard) : Prop where
  time : e.time = .ofTicks tick n.start
  activity : e.activity = n.activity
  signal : e.signal = n.signal
  agree : Agree (x.changes n.signal) n.start e.frequency
    (x.frequencyHistory.frequencyAt? n.signal n.start)
  hardware : x.signalMap.isHardware n.signal = .ok true →
    e.frequency = none ∧ x.frequencyHistory.frequencyAt? n.signal n.start = none

/-- Take a tree in which oscillators live where their signals say, lowered with its loops expanded
    and a tick under which later starts stay later in seconds.  Its timeline plays and acquires what
    the tree does, in the same order and at the same times, and the frequency on each of these
    pulses and the answer of the history for its signal and its start agree on the changes of the
    tree.  Pulses and changes are read off the nodes reached, and these are the places of the tour,
    each at the sum of the offsets on the way to it, in 64 bits. -/
theorem frequencies_agree {x : Experiment} {d : Diagnostics} {tick : Float} {o : LoweringOptions}
    {out : List Event} (hexpand : o.expandLoops = true)
    (h : (x.timeline d tick o).outcome = .ok out) (hkinds : x.KindsAgree)
    (hticks : x.TicksIncrease tick) :
    List.Forall₂ (x.HeardAs tick) x.soundings (out.filterMap Event.heard?) ∧
    x.reached = x.places.map fun p => (p.offsets.sum.bmod 0x10000000000000000, p.kind) := by
  refine ⟨?_, x.reached_places⟩
  rw [Experiment.outcome_timeline] at h
  obtain ⟨events, hflatten, hresolve⟩ := bind_ok h
  have hflat := flattened_of_flatten hflatten
  obtain ⟨es, hwritten, hsame⟩ := heard_resolveEvents hflat hresolve
  rw [hsame]
  refine forall₂_filterMap (Frequency.written_spec hflat.nodup hwritten)
    (heard_flatten hexpand hflatten) (fun e _ e' => heard?_eq_none_of_written) ?_
  intro e _ e' hwrite n hn hheard
  obtain ⟨htime, hrank, hardware, hhw, hheard'⟩ := heard?_of_written hwrite hheard
  have hagree := agree_frequencyAt? x n.signal n.start
  cases hardware with
  | true =>
      have hchanges := changes_of_hardware hkinds hhw
      have hhistory : x.frequencyHistory.frequencyAt? n.signal n.start = none := by
        rw [frequencyAt?_eq, hchanges]
        rfl
      refine ⟨_, hheard', rfl, rfl, rfl, ?_, fun _ => ⟨rfl, hhistory⟩⟩
      rw [hchanges] at hagree ⊢
      exact hagree
  | false =>
      have hbefore := frequencyBefore_eq hflat.nodup hflat.increase hticks
        (changes_flatten hexpand hflatten hkinds hhw) hrank (start_mem_reached hn) htime
      refine ⟨_, hheard', rfl, rfl, rfl, ?_, fun hhw' => ?_⟩
      · rw [← hbefore] at hagree
        exact hagree
      · rw [hhw] at hhw'
        cases hhw'

/-- The example is played on before its frequency is set, and acquires after that. -/
theorem duet_frequencies_agree :
    (List.Forall₂ (duet.HeardAs 1e-9) duet.soundings (duetTimeline.filterMap Event.heard?) ∧
      duet.reached = duet.places.map fun p => (p.offsets.sum.bmod 0x10000000000000000, p.kind)) ∧
    duet.soundings.map Sounding.start = [0, 50] ∧
    (duetTimeline.filterMap Event.heard?).map (fun e => e.time.toFloat) =
      [0.0, 5.0000000000000004e-8] ∧
    (duetTimeline.filterMap Event.heard?).map Heard.frequency = [some 1e6, some 2e6] :=
  ⟨frequencies_agree rfl duet_timeline (by decide +kernel) (by decide +kernel), by decide +kernel,
    by decide +kernel, by decide +kernel⟩

/-- The start of a play wraps around to before the initial frequency: neither side knows one. -/
example :
    let x : Experiment := { duet with root := some ⟨.root, none, [
      (0, .leaf (.initialFrequency [⟨⟨⟨⟨5⟩⟩, .software, [⟨⟨0⟩⟩]⟩, 1e6, none⟩]) none),
      (0x4000000000000000, ⟨.sect ⟨⟨7⟩⟩, some 0, [
        (0x4000000000000000, .leaf (.play ⟨⟨⟨0⟩⟩, none, none, 0.0, none, none⟩) (some 0))]⟩)]⟩ }
    x.soundings.map Sounding.start = [minTick] ∧
    (((x.timeline ⟨false⟩ 1e-9 ⟨true, 5⟩).outcome.toOption.getD []).filterMap Event.heard?).map
      Heard.frequency = [none] ∧
    x.frequencyHistory.frequencyAt? ⟨⟨0⟩⟩ minTick = none := by
  decide +kernel

end PulseTimeline
