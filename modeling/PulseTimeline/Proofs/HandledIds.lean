/-
  Which events count as used up by the frequency pass.

  `handledEvents` collects ids in two scans of the list.  Both are characterised by what they find,
  not by how they go about it:

  1. **Starts** — the first scan finds the initial frequencies and the frequency sets with a signal
     in software (`handledStarts_ok`).  It fails only if it meets an unknown signal
     (`handledStarts_of_known`).

  2. **Ends** — as long as no frequency end names another one as its start, the second scan finds
     the ends of what the first one found, in whatever order they are listed (`mem_handledEnds`).
     On any list, it finds nothing but starts and ends (`exists_of_handled`).

  Together: an event of a list with distinct ids is handled if and only if it is `UsedUp`
  (`mem_handledEvents`), which does not mention the order of the list.
-/
import Mathlib.Data.List.Nodup
import PulseTimeline.Log
import PulseTimeline.Resolution.Handled

namespace PulseTimeline

/-- The id that a frequency end names as its start. -/
def EventKind.frequencyChain? : EventKind → Option Nat
  | .setFrequencyEnd _ _ chain => some chain
  | _ => none

/-! ## Starts -/

/-- Looking for a signal in software fails only at an unknown signal. -/
theorem anySoftware_of_known {m : SignalMap} {uids : List SignalUid}
    (h : ∀ uid ∈ uids, ∃ b, m.isHardware uid = .ok b) : ∃ b, anySoftware m uids = .ok b := by
  induction uids with
  | nil => exact ⟨false, rfl⟩
  | cons uid uids ih =>
      obtain ⟨hardware, hknown⟩ := h uid List.mem_cons_self
      rw [anySoftware, hknown]
      cases hardware with
      | true => exact ih fun u hu => h u (List.mem_cons_of_mem _ hu)
      | false => exact ⟨true, rfl⟩

/-- The handled starts are put to the ids that are there already. -/
theorem handledStarts_ok {m : SignalMap} {events : List Event} {ids ids' : List Nat}
    (h : handledStarts m events ids = .ok ids') (i : Nat) :
    i ∈ ids' ↔ i ∈ ids ∨ ∃ e ∈ events, isHandledStart m e.kind = .ok true ∧ e.id = i := by
  induction events generalizing ids with
  | nil =>
      cases h
      simp
  | cons e es ih =>
      rw [handledStarts] at h
      obtain ⟨handled, hknown, h⟩ := bind_ok h
      rw [ih h]
      cases handled with
      | true =>
          simp only [if_true, List.mem_insert_iff, List.exists_mem_cons_iff, hknown, true_and]
          rw [or_assoc, or_left_comm, eq_comm]
      | false =>
          simp [hknown]

/-- If the signals of all settings are known, the handled starts can be found. -/
theorem handledStarts_of_known {m : SignalMap} {events : List Event} (ids : List Nat)
    (h : ∀ e ∈ events, ∃ b, isHandledStart m e.kind = .ok b) :
    ∃ ids', handledStarts m events ids = .ok ids' := by
  induction events generalizing ids with
  | nil => exact ⟨ids, rfl⟩
  | cons e es ih =>
      obtain ⟨b, hb⟩ := h e List.mem_cons_self
      rw [handledStarts, hb]
      exact ih _ fun f hf => h f (List.mem_cons_of_mem _ hf)

/-! ## Ends -/

theorem handledEnds_cons (e : Event) (es : List Event) (ids : List Nat) :
    handledEnds (e :: es) ids =
      handledEnds es (if ∃ c, e.kind.frequencyChain? = some c ∧ c ∈ ids then ids.insert e.id
        else ids) := by
  rw [handledEnds]
  cases e.kind <;> simp [EventKind.frequencyChain?]

/-- An id that is handled stays handled. -/
theorem mem_handledEnds_of_mem {events : List Event} {ids : List Nat} {i : Nat} (h : i ∈ ids) :
    i ∈ handledEnds events ids := by
  induction events generalizing ids with
  | nil => exact h
  | cons e es ih =>
      rw [handledEnds_cons]
      refine ih ?_
      split
      · exact List.mem_insert_of_mem h
      · exact h

/-- The end of a handled start is handled, wherever in the list it stands. -/
theorem mem_handledEnds_of_chain {events : List Event} {ids : List Nat} {e : Event} {c : Nat}
    (he : e ∈ events) (hchain : e.kind.frequencyChain? = some c) (hc : c ∈ ids) :
    e.id ∈ handledEnds events ids := by
  induction events generalizing ids with
  | nil => cases he
  | cons f fs ih =>
      rw [handledEnds_cons]
      rcases List.mem_cons.mp he with rfl | he
      · rw [if_pos ⟨c, hchain, hc⟩]
        exact mem_handledEnds_of_mem List.mem_insert_self
      · refine ih he ?_
        split
        · exact List.mem_insert_of_mem hc
        · exact hc

/-- A property of ids that passes from the chain of an end to the end itself holds of all ids that
    the scan finds, if it holds of those that it starts with. -/
theorem handledEnds_induction {T : Nat → Prop} {events : List Event} {ids : List Nat}
    (hstep : ∀ e ∈ events, ∀ c, e.kind.frequencyChain? = some c → T c → T e.id)
    (hids : ∀ i ∈ ids, T i) : ∀ i ∈ handledEnds events ids, T i := by
  induction events generalizing ids with
  | nil => exact hids
  | cons e es ih =>
      rw [handledEnds_cons]
      refine ih (fun f hf => hstep f (List.mem_cons_of_mem _ hf)) ?_
      split
      · rename_i hchain
        obtain ⟨c, hc, hmem⟩ := hchain
        intro i hi
        rcases List.mem_insert_iff.mp hi with rfl | hi
        · exact hstep e List.mem_cons_self c hc (hids c hmem)
        · exact hids i hi
      · exact hids

/-- No frequency end of the list names another frequency end as its start. -/
def EndsNameNoEnds (events : List Event) : Prop :=
  ∀ a ∈ events, ∀ b ∈ events, ∀ c, a.kind.frequencyChain? = some b.id →
    b.kind.frequencyChain? = some c → a.id = b.id

/-- If no end names an end, the handled ids are the given ones and those of the ends that name one
    of them. -/
theorem mem_handledEnds {events : List Event} {ids : List Nat} (hends : EndsNameNoEnds events)
    (i : Nat) :
    i ∈ handledEnds events ids ↔
      i ∈ ids ∨ ∃ e ∈ events, ∃ c, e.kind.frequencyChain? = some c ∧ c ∈ ids ∧ e.id = i := by
  constructor
  · refine handledEnds_induction (T := fun i => i ∈ ids ∨
      ∃ e ∈ events, ∃ c, e.kind.frequencyChain? = some c ∧ c ∈ ids ∧ e.id = i) ?_ ?_ i
    · rintro e he c hc (hmem | ⟨f, hf, c', hc', hmem, rfl⟩)
      · exact .inr ⟨e, he, c, hc, hmem, rfl⟩
      · -- The end names an end, so it names itself.
        have hid : e.id = f.id := hends e he f hf c' hc hc'
        exact .inr ⟨f, hf, c', hc', hmem, hid.symm⟩
    · intro j hj
      exact .inl hj
  · rintro (hmem | ⟨e, he, c, hc, hmem, rfl⟩)
    · exact mem_handledEnds_of_mem hmem
    · exact mem_handledEnds_of_chain he hc hmem

/-! ## Events that are used up -/

/-- An event of a list that the frequency pass has used up: an initial frequency, a frequency set
    with a signal in software, or the end of such an event. -/
def UsedUp (m : SignalMap) (events : List Event) (e : Event) : Prop :=
  isHandledStart m e.kind = .ok true ∨
    ∃ f ∈ events, isHandledStart m f.kind = .ok true ∧ e.kind.frequencyChain? = some f.id

instance (m : SignalMap) (events : List Event) (e : Event) : Decidable (UsedUp m events e) :=
  inferInstanceAs (Decidable (_ ∨ ∃ f ∈ events, _ ∧ _))

/-- The handled events are those that are used up. -/
theorem mem_handledEvents {m : SignalMap} {events : List Event} {ids : List Nat}
    (hids : (events.map Event.id).Nodup) (hends : EndsNameNoEnds events)
    (h : handledEvents m events = .ok ids) {e : Event} (he : e ∈ events) :
    e.id ∈ ids ↔ UsedUp m events e := by
  obtain ⟨starts, hstarts, h⟩ := bind_ok h
  have hdone : handledEnds events starts = ids := Except.ok.inj h
  have hmem : ∀ i, i ∈ starts ↔ ∃ f ∈ events, isHandledStart m f.kind = .ok true ∧ f.id = i := by
    intro i
    rw [handledStarts_ok hstarts i]
    simp
  rw [← hdone, mem_handledEnds hends, UsedUp]
  constructor
  · rintro (hi | ⟨f, hf, c, hc, hi, hid⟩)
    · obtain ⟨f, hf, hstart, hid⟩ := (hmem _).mp hi
      rw [List.inj_on_of_nodup_map hids hf he hid] at hstart
      exact .inl hstart
    · obtain ⟨g, hg, hstart, rfl⟩ := (hmem _).mp hi
      rw [List.inj_on_of_nodup_map hids hf he hid] at hc
      exact .inr ⟨g, hg, hstart, hc⟩
  · rintro (hstart | ⟨f, hf, hstart, hc⟩)
    · exact .inl ((hmem _).mpr ⟨e, he, hstart, rfl⟩)
    · exact .inr ⟨e, he, f.id, hc, (hmem _).mpr ⟨f, hf, hstart, rfl⟩, rfl⟩

/-- An id is handled because of an event that is handled by itself, or of a frequency end. -/
theorem exists_of_handled {m : SignalMap} {events : List Event} {ids : List Nat}
    (h : handledEvents m events = .ok ids) : ∀ i ∈ ids, ∃ f ∈ events,
      (isHandledStart m f.kind = .ok true ∨ f.kind.frequencyChain?.isSome = true) ∧ f.id = i := by
  obtain ⟨starts, hstarts, h⟩ := bind_ok h
  have hdone : handledEnds events starts = ids := Except.ok.inj h
  rw [← hdone]
  refine handledEnds_induction ?_ ?_
  · intro f hf c hc _
    exact ⟨f, hf, .inr (by rw [hc]; rfl), rfl⟩
  · intro i hi
    rcases (handledStarts_ok hstarts i).mp hi with hi | ⟨f, hf, hstart, rfl⟩
    · cases hi
    · exact ⟨f, hf, .inl hstart, rfl⟩

/-- If the signals of all settings are known, the handled ids can be found. -/
theorem handledEvents_of_known {m : SignalMap} {events : List Event}
    (h : ∀ e ∈ events, ∃ b, isHandledStart m e.kind = .ok b) :
    ∃ ids, handledEvents m events = .ok ids := by
  obtain ⟨starts, hstarts⟩ := handledStarts_of_known [] h
  exact ⟨handledEnds events starts, by rw [handledEvents, hstarts]; rfl⟩

end PulseTimeline
