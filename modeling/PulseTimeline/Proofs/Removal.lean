/-
  What a timeline leaves out.

  1. **Specification** — `subsumed` says of an event of the flattened experiment that its effect is
     contained in the pulses: an initial frequency, a frequency set with a signal that is not
     modulated in hardware, or the end of such a frequency set.  It reads the list and the signals
     only, and fails nowhere.

  2. **Exactly these** — where a timeline exists, the events that are used up are the subsumed ones
     (`usedUp_iff_subsumed`).

  3. **Chains** — a start and its end are subsumed together (`subsumed_of_opens`), so that no chain
     is torn apart (`ChainsIntact.filter`), and what the passes write on pulses does not matter to
     chains (`ChainsIntact.of_unresolved`).

  4. **Timeline** — a timeline is the flattened experiment without the subsumed events, in the same
     order, with all chains intact (`timeline_eq_survivors`).
-/
import PulseTimeline.Proofs.Pipeline

namespace PulseTimeline

/-! ## Subsumed events -/

/-- Whether a signal is known and modulated in hardware. -/
def SignalMap.inHardware (m : SignalMap) (uid : SignalUid) : Bool :=
  (m.signals.get? uid).any Signal.isHardware

/-- Whether the event starts to set a frequency on a signal that is not modulated in hardware. -/
def EventKind.setsSoftware (m : SignalMap) : EventKind → Bool
  | .setFrequencyStart update => update.signals.any fun uid => !m.inHardware uid
  | _ => false

/-- Whether the event is an initial frequency. -/
def EventKind.isInitial : EventKind → Bool
  | .initialFrequency _ => true
  | _ => false

/-- Whether an event of a list is subsumed by the frequencies written on the pulses. -/
def subsumed (m : SignalMap) (events : List Event) (e : Event) : Bool :=
  match e.kind with
  | .initialFrequency _ => true
  | .setFrequencyStart update => update.signals.any fun uid => !m.inHardware uid
  | .setFrequencyEnd _ _ chain => events.any fun f => f.id = chain && f.kind.setsSoftware m
  | _ => false

/-! ## Subsumed means used up -/

theorem inHardware_of_isHardware {m : SignalMap} {uid : SignalUid} {b : Bool}
    (h : m.isHardware uid = .ok b) : m.inHardware uid = b := by
  obtain ⟨s, hs, hb⟩ := SignalMap.isHardware_ok.mp h
  unfold SignalMap.inHardware
  rw [hs, Option.any_some, hb]

/-- If the search for a signal in software ends at all, it finds what there is, although it does not
    look at all signals. -/
theorem anySoftware_eq_any {m : SignalMap} {uids : List SignalUid} {b : Bool}
    (h : anySoftware m uids = .ok b) : b = uids.any fun uid => !m.inHardware uid := by
  induction uids with
  | nil =>
      cases h
      rfl
  | cons uid uids ih =>
      unfold anySoftware at h
      obtain ⟨hardware, hknown, h⟩ := bind_ok h
      rw [List.any_cons, inHardware_of_isHardware hknown]
      cases hardware with
      | true => exact ih h
      | false =>
          cases h
          rfl

theorem isHandledStart_eq {m : SignalMap} {k : EventKind} {b : Bool}
    (h : isHandledStart m k = .ok b) :
    b = (k.isInitial || k.setsSoftware m) := by
  cases k <;> first | exact anySoftware_eq_any h | (cases h; rfl)

theorem chain?_of_frequencyChain? {k : EventKind} {c : Nat} (h : k.frequencyChain? = some c) :
    k.chain? = some c := by
  cases k <;> first | exact h | cases h

theorem setFrequencyStart_of_opens {first last : EventKind} {c : Nat}
    (hlast : last.frequencyChain? = some c) (h : first.Opens last) :
    ∃ update, first = .setFrequencyStart update := by
  cases last <;> cases hlast
  cases first <;> first | exact ⟨_, rfl⟩ | cases h

section Lists

variable {m : SignalMap} {events : List Event}

/-- The only event of a list with all chains intact that can be named by an end is its start. -/
theorem ChainsIntact.opens_of_id (h : ChainsIntact events) {f e : Event} (hf : f ∈ events)
    (he : e ∈ events) (hchain : e.kind.chain? = some f.id) : f.kind.Opens e.kind := by
  obtain ⟨g, hg, hopens, _⟩ := h.start_of_end e he f.id hchain
  have hmem : f ∈ events.filter fun g => g.id = f.id := List.mem_filter.mpr ⟨hf, by simp⟩
  rw [hg, List.mem_singleton] at hmem
  rwa [hmem]

/-- A start and its end are subsumed together. -/
theorem subsumed_of_opens (hids : (events.map Event.id).Nodup) {f e : Event} (hf : f ∈ events)
    (hchain : e.kind.chain? = some f.id) (hopens : f.kind.Opens e.kind) :
    subsumed m events e = subsumed m events f := by
  have hid : ∀ g ∈ events, g.id = f.id → g = f := fun g hg h =>
    List.inj_on_of_nodup_map hids hg hf h
  have hsame : (events.any fun g => g.id = f.id && g.kind.setsSoftware m) =
      f.kind.setsSoftware m := by
    rw [Bool.eq_iff_iff, List.any_eq_true]
    constructor
    · rintro ⟨g, hg, h⟩
      rw [Bool.and_eq_true, decide_eq_true_eq] at h
      rw [← hid g hg h.1]
      exact h.2
    · intro h
      exact ⟨f, hf, by simp [h]⟩
  obtain ⟨fid, ftime, first⟩ := f
  obtain ⟨eid, etime, last⟩ := e
  cases last <;> cases hchain <;> cases first <;> first | (cases hopens; done) | rfl | exact hsame

/-- Where the removal succeeds, an event is used up if and only if it is subsumed. -/
theorem usedUp_iff_subsumed (hchains : ChainsIntact events)
    (hknown : ∀ e ∈ events, ∃ b, isHandledStart m e.kind = .ok b) {e : Event} (he : e ∈ events) :
    UsedUp m events e ↔ subsumed m events e = true := by
  have hstart : ∀ f ∈ events, isHandledStart m f.kind = .ok true ↔
      (f.kind.isInitial || f.kind.setsSoftware m) = true := by
    intro f hf
    obtain ⟨b, hb⟩ := hknown f hf
    rw [hb, ← isHandledStart_eq hb, Except.ok.injEq]
  -- An end names a frequency set, never an initial frequency.
  have hnamed : ∀ f ∈ events, e.kind.frequencyChain? = some f.id →
      (isHandledStart m f.kind = .ok true ↔ f.kind.setsSoftware m = true) := by
    intro f hf hchain
    have hopens := hchains.opens_of_id hf he (chain?_of_frequencyChain? hchain)
    obtain ⟨update, hupdate⟩ := setFrequencyStart_of_opens hchain hopens
    rw [hstart f hf, hupdate]
    rfl
  have hself := hstart e he
  unfold UsedUp
  obtain ⟨id, time, kind⟩ := e
  cases kind with
  | initialFrequency update => exact iff_of_true (.inl rfl) rfl
  | setFrequencyStart update =>
      constructor
      · rintro (h | ⟨f, _, _, hchain⟩)
        · exact hself.mp h
        · cases hchain
      · intro h
        exact .inl (hself.mpr h)
  | setFrequencyEnd oscillator signals chain =>
      show _ ↔ (events.any fun f => f.id = chain && f.kind.setsSoftware m) = true
      rw [List.any_eq_true]
      constructor
      · rintro (h | ⟨f, hf, hf', hchain⟩)
        · cases h
        · refine ⟨f, hf, ?_⟩
          rw [Bool.and_eq_true, decide_eq_true_eq]
          exact ⟨(Option.some.inj hchain).symm, (hnamed f hf hchain).mp hf'⟩
      · rintro ⟨f, hf, h⟩
        rw [Bool.and_eq_true, decide_eq_true_eq] at h
        have hchain : some chain = some f.id := by rw [h.1]
        exact .inr ⟨f, hf, (hnamed f hf hchain).mpr h.2, hchain⟩
  | _ =>
      refine iff_of_false ?_ Bool.false_ne_true
      rintro (h | ⟨f, _, _, hchain⟩)
      · cases h
      · cases hchain

end Lists

/-! ## Chains -/

/-- A selection that keeps or drops a start and its end together keeps all chains intact. -/
theorem ChainsIntact.filter {events : List Event} (h : ChainsIntact events) {p : Event → Bool}
    (hp : ∀ f ∈ events, ∀ e ∈ events, e.kind.chain? = some f.id → f.kind.Opens e.kind →
      p e = p f) : ChainsIntact (events.filter p) := by
  constructor
  · intro e he chain hchain
    obtain ⟨hmem, hpe⟩ := List.mem_filter.mp he
    obtain ⟨f, hf, hopens, hsub⟩ := h.start_of_end e hmem chain hchain
    have hfmem : f ∈ events.filter fun g => g.id = chain := by
      rw [hf]
      exact List.mem_singleton_self f
    have hfid : f.id = chain := by simpa using (List.mem_filter.mp hfmem).2
    have hpf : p f = true := by
      rw [← hp f (List.mem_filter.mp hfmem).1 e hmem (by rw [hfid]; exact hchain) hopens]
      exact hpe
    refine ⟨f, ?_, hopens, ?_⟩
    · rw [List.filter_filter, ← List.filter_filter, List.filter_comm, hf,
        List.filter_cons_of_pos hpf, List.filter_nil]
    · have hboth : [f, e].filter p = [f, e] := by simp [hpf, hpe]
      rw [← hboth]
      exact hsub.filter p
  · intro f hf hstart
    obtain ⟨hmem, hpf⟩ := List.mem_filter.mp hf
    obtain ⟨e, he, hopens⟩ := h.end_of_start f hmem hstart
    have hemem : e ∈ events.filter fun g => g.kind.chain? = some f.id := by
      rw [he]
      exact List.mem_singleton_self e
    obtain ⟨hemem, hechain⟩ := List.mem_filter.mp hemem
    have hpe : p e = true := by
      rw [hp f hmem e hemem (by simpa using hechain) hopens]
      exact hpf
    refine ⟨e, ?_, hopens⟩
    rw [List.filter_comm, he, List.filter_cons_of_pos hpe, List.filter_nil]

/-- Chains do not depend on what is written on the pulses. -/
theorem ChainsIntact.of_unresolved {es out : List Event} (h : ChainsIntact es)
    (hids : (out.map Event.id).Nodup) (hsame : out.map Event.unresolved = es.map Event.unresolved) :
    ChainsIntact out := by
  -- Every event of `out` has a counterpart in `es`.
  have hpartner : ∀ e ∈ out, ∃ e' ∈ es, e'.unresolved = e.unresolved := by
    intro e he
    have hmem : e.unresolved ∈ es.map Event.unresolved := hsame ▸ List.mem_map_of_mem he
    exact List.mem_map.mp hmem
  have hsingle : ∀ (p : Event → Bool) (f : Event),
      (∀ a b, a.unresolved = b.unresolved → p a = p b) → es.filter p = [f] →
        ∃ f', out.filter p = [f'] ∧ f'.unresolved = f.unresolved := by
    intro p f hp hf
    have hmap : (out.filter p).map Event.unresolved = (es.filter p).map Event.unresolved :=
      map_filter_unresolved hsame fun a _ b _ hab => hp a b hab
    rw [hf, List.map_singleton, List.map_eq_singleton_iff] at hmap
    obtain ⟨f', hf', hu⟩ := hmap
    exact ⟨f', hf', hu⟩
  have hid : ∀ a b : Event, a.unresolved = b.unresolved → a.id = b.id := by
    intro a b hab
    rw [← id_unresolved a, hab, id_unresolved]
  have hkind : ∀ a b : Event, a.unresolved = b.unresolved →
      a.kind.unresolved = b.kind.unresolved := by
    intro a b hab
    rw [← kind_unresolved, hab, kind_unresolved]
  have hchain? : ∀ a b : Event, a.unresolved = b.unresolved → a.kind.chain? = b.kind.chain? := by
    intro a b hab
    rw [← a.kind.chain?_unresolved, hkind a b hab, b.kind.chain?_unresolved]
  constructor
  · intro e he chain hchain
    obtain ⟨e₀, he₀, heu⟩ := hpartner e he
    obtain ⟨f₀, hf₀, hopens, hsub⟩ := h.start_of_end e₀ he₀ chain (by rw [hchain? _ _ heu, hchain])
    obtain ⟨f, hf, hfu⟩ := hsingle (fun g => g.id = chain) f₀
      (fun a b hab => by simp [hid a b hab]) hf₀
    refine ⟨f, hf, ?_, ?_⟩
    · rw [← EventKind.opens_unresolved, hkind _ _ hfu, ← hkind _ _ heu,
        EventKind.opens_unresolved]
      exact hopens
    · have hmap : ([f₀, e₀].map Event.unresolved).Sublist (out.map Event.unresolved) := by
        rw [hsame]
        exact hsub.map Event.unresolved
      obtain ⟨pair, hpair, heq⟩ := List.sublist_map_iff.mp hmap
      obtain ⟨f', rest, rfl, hf', hrest⟩ := List.map_eq_cons_iff.mp heq.symm
      obtain ⟨e', hpaire, he'⟩ := List.map_eq_singleton_iff.mp hrest
      subst hpaire
      -- The pair found is the pair looked for, since ids are distinct.
      have hfmem : f ∈ out := by
        have hmem : f ∈ out.filter fun g => g.id = chain := by
          rw [hf]
          exact List.mem_singleton_self f
        exact (List.mem_filter.mp hmem).1
      have hff : f' = f := List.inj_on_of_nodup_map hids (hpair.subset List.mem_cons_self) hfmem
        (hid _ _ (hf'.trans hfu.symm))
      have hee : e' = e := List.inj_on_of_nodup_map hids
        (hpair.subset (List.mem_cons_of_mem _ List.mem_cons_self)) he (hid _ _ (he'.trans heu))
      rwa [hff, hee] at hpair
  · intro f hf hstart
    obtain ⟨f₀, hf₀, hfu⟩ := hpartner f hf
    have hstart₀ : f₀.kind.isStart = true := by
      rw [← f₀.kind.isStart_unresolved, hkind _ _ hfu, f.kind.isStart_unresolved]
      exact hstart
    obtain ⟨e₀, he₀, hopens⟩ := h.end_of_start f₀ hf₀ hstart₀
    rw [hid _ _ hfu] at he₀
    obtain ⟨e, he, heu⟩ := hsingle (fun g => g.kind.chain? = some f.id) e₀
      (fun a b hab => by simp [hchain? a b hab]) he₀
    refine ⟨e, he, ?_⟩
    rw [← EventKind.opens_unresolved, hkind _ _ heu, ← hkind _ _ hfu, EventKind.opens_unresolved]
    exact hopens

/-! ## Timelines -/

section Timelines

variable {x : Experiment} {d : Diagnostics} {tick : Float} {o : LoweringOptions}
  {events out : List Event}

/-- No frequency end of a flattened experiment names another end. -/
theorem endsNameNoEnds_flatten (h : x.flatten tick o = .ok events) : EndsNameNoEnds events := by
  intro a ha b hb c hab hbc
  -- The end `b` would be the start that the end `a` names.
  have hopens := (chainsIntact_flatten h).opens_of_id hb ha (chain?_of_frequencyChain? hab)
  obtain ⟨update, hupdate⟩ := setFrequencyStart_of_opens hab hopens
  rw [hupdate] at hbc
  cases hbc

/-- A timeline is the flattened experiment without the subsumed events: the others stay in order,
    with their ids, their times and all that the passes do not write on pulses.  Every end in it
    finds its start, exactly one, further to the front, and every start its end. -/
theorem timeline_eq_survivors (h : (x.timeline d tick o).outcome = .ok out) :
    ∃ events, x.flatten tick o = .ok events ∧
      out.map Event.unresolved =
        (events.filter fun e => !subsumed x.signalMap events e).map Event.unresolved ∧
      ChainsIntact out := by
  rw [Experiment.outcome_timeline] at h
  obtain ⟨events, hflatten, hresolve⟩ := bind_ok h
  have hids := nodup_ids hflatten
  have hchains := chainsIntact_flatten hflatten
  have hends := endsNameNoEnds_flatten hflatten
  obtain ⟨es, ids, hwritten, _, _⟩ := resolveEvents_ok hresolve
  have hknown := known_of_written hwritten
  have hframe : out.map Event.unresolved =
      (events.filter fun e => !subsumed x.signalMap events e).map Event.unresolved := by
    rw [resolveEvents_frame hids hends hresolve]
    refine congrArg _ (List.filter_congr fun e he => ?_)
    rw [Bool.eq_iff_iff]
    simp [usedUp_iff_subsumed hchains hknown he]
  have hsurvive : ChainsIntact (events.filter fun e => !subsumed x.signalMap events e) := by
    refine hchains.filter fun f hf e _ hchain hopens => ?_
    rw [subsumed_of_opens hids hf hchain hopens]
  have hids' : (out.map Event.id).Nodup := by
    rw [map_id_of_unresolved hframe]
    exact hids.sublist (List.filter_sublist.map Event.id)
  exact ⟨events, hflatten, hframe, hsurvive.of_unresolved hids' hframe⟩

end Timelines

/-- In the example three events are subsumed: the initial frequency, and the frequency set in
    software with its end.  The frequency set in hardware stays. -/
theorem duet_survivors :
    ∃ events, duet.flatten 1e-9 ⟨true, 100⟩ = .ok events ∧
      duetTimeline.map Event.unresolved =
        (events.filter fun e => !subsumed duet.signalMap events e).map Event.unresolved ∧
      ChainsIntact duetTimeline ∧ events.length = 15 ∧ duetTimeline.length = 12 := by
  obtain ⟨events, hflatten, hframe, hchains⟩ := timeline_eq_survivors duet_timeline
  refine ⟨events, hflatten, hframe, hchains, ?_, by decide +kernel⟩
  have hlength : (duet.flatten 1e-9 ⟨true, 100⟩).toOption.map List.length = some 15 := by
    decide +kernel
  rw [hflatten] at hlength
  exact Option.some.inj hlength

end PulseTimeline
