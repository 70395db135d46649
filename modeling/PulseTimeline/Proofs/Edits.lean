/-
  Edits of a tree that are of no concern to a signal.

  1. **Edits** — `Edit uid` relates two lists of children that differ in one place: a pulse on
     another signal is taken out or replaced by such a pulse, or a frequency setting whose
     oscillator does not modulate the signal is taken out or given another value.  Any number of
     edits of an experiment makes a `Variant`.

  2. **Hiding** — `hideChildren uid` takes out all that edits may change.  An edit changes nothing
     that is not hidden (`hideChildren_eq_of_edit`).

  3. **Onsets** — hiding does not change the onsets that concern the signal
     (`onsets_hideChildren`), provided that the tree has no fault: behind a stray child a loop is
     not walked any further, and hiding that child would open up the rest.
-/
import Mathlib.Logic.Relation
import PulseTimeline.Proofs.Onsets

namespace PulseTimeline

/-! ## Edits -/

/-- The signal of a play, an acquisition or a delay. -/
def NodeKind.pulseSignal? : NodeKind → Option SignalUid
  | .play pulse => some pulse.signal
  | .acquire signal _ _ => some signal
  | .delay signal _ _ => some signal
  | _ => none

/-- Whether the node is a play, an acquisition or a delay on another signal. -/
def Node.isForeign (uid : SignalUid) (n : Node) : Bool := n.kind.pulseSignal?.any (· ≠ uid)

/-- Take out a frequency setting whose oscillator does not modulate the signal, or change its
    value. -/
inductive SettingEdit (uid : SignalUid) : List FrequencySetting → List FrequencySetting → Prop
  | remove {s : FrequencySetting} {before after : List FrequencySetting}
      (h : uid ∉ s.oscillator.signals) : SettingEdit uid (before ++ s :: after) (before ++ after)
  | change {s : FrequencySetting} {before after : List FrequencySetting} (value : Float)
      (parameter : Option ParameterUid) (h : uid ∉ s.oscillator.signals) :
      SettingEdit uid (before ++ s :: after) (before ++ { s with value, parameter } :: after)

/-- One edit of a list of children, or anywhere below it, that is of no concern to the signal. -/
inductive Edit (uid : SignalUid) : List (Int × Node) → List (Int × Node) → Prop
  | remove {offset : Int} {n : Node} {rest : List (Int × Node)} (h : n.isForeign uid = true) :
      Edit uid ((offset, n) :: rest) rest
  | change {offset offset' : Int} {n n' : Node} {rest : List (Int × Node)}
      (h : n.isForeign uid = true) (h' : n'.isForeign uid = true) :
      Edit uid ((offset, n) :: rest) ((offset', n') :: rest)
  | setFrequency {offset : Int} {owner : SectionUid} {settings settings' : List FrequencySetting}
      {iteration : Nat} {length : Option Int} {children rest : List (Int × Node)}
      (h : SettingEdit uid settings settings') :
      Edit uid ((offset, ⟨.setFrequency owner settings iteration, length, children⟩) :: rest)
        ((offset, ⟨.setFrequency owner settings' iteration, length, children⟩) :: rest)
  | initialFrequency {offset : Int} {settings settings' : List FrequencySetting}
      {length : Option Int} {children rest : List (Int × Node)}
      (h : SettingEdit uid settings settings') :
      Edit uid ((offset, ⟨.initialFrequency settings, length, children⟩) :: rest)
        ((offset, ⟨.initialFrequency settings', length, children⟩) :: rest)
  | inside {offset : Int} {kind : NodeKind} {length : Option Int}
      {children children' rest : List (Int × Node)} (h : Edit uid children children') :
      Edit uid ((offset, ⟨kind, length, children⟩) :: rest)
        ((offset, ⟨kind, length, children'⟩) :: rest)
  | after {child : Int × Node} {rest rest' : List (Int × Node)} (h : Edit uid rest rest') :
      Edit uid (child :: rest) (child :: rest')

/-- The root of an experiment as a list of children, empty if there is no tree. -/
def Experiment.top (x : Experiment) : List (Int × Node) := x.root.toList.map fun n => (0, n)

/-- Another experiment around the same objects, whose tree differs only in what is of no concern to
    a signal. -/
structure Variant (uid : SignalUid) (x x' : Experiment) : Prop where
  signals : x'.signals = x.signals
  devices : x'.devices = x.devices
  names : x'.names = x.names
  edits : Relation.ReflTransGen (Edit uid) x.top x'.top

/-! ## Hiding -/

/-- The settings whose oscillator modulates the signal. -/
def ownSettings (uid : SignalUid) (settings : List FrequencySetting) : List FrequencySetting :=
  settings.filter fun s => uid ∈ s.oscillator.signals

/-- The kind without the settings that are of no concern to the signal. -/
def NodeKind.hide (uid : SignalUid) : NodeKind → NodeKind
  | .setFrequency owner settings index => .setFrequency owner (ownSettings uid settings) index
  | .initialFrequency settings => .initialFrequency (ownSettings uid settings)
  | kind => kind

mutual

/-- The node without all that is of no concern to the signal. -/
def Node.hide (uid : SignalUid) : Node → Node
  | ⟨kind, length, children⟩ => ⟨kind.hide uid, length, hideChildren uid children⟩
termination_by structural n => n

/-- The children without all that is of no concern to the signal. -/
def hideChildren (uid : SignalUid) : List (Int × Node) → List (Int × Node)
  | [] => []
  | (offset, child) :: children =>
      if child.isForeign uid then hideChildren uid children
      else (offset, child.hide uid) :: hideChildren uid children
termination_by structural children => children

end

/-- An edit of other signals leaves the settings of a signal alone. -/
theorem ownSettings_eq_of_edit {uid : SignalUid} {settings settings' : List FrequencySetting}
    (h : SettingEdit uid settings settings') :
    ownSettings uid settings = ownSettings uid settings' := by
  unfold ownSettings
  cases h with
  | remove h =>
      rw [List.filter_append, List.filter_append, List.filter_cons_of_neg (by simpa using h)]
  | change value parameter h =>
      rw [List.filter_append, List.filter_append, List.filter_cons_of_neg (by simpa using h),
        List.filter_cons_of_neg (by simpa using h)]

/-- An edit changes nothing but what is hidden. -/
theorem hideChildren_eq_of_edit {uid : SignalUid} {cs cs' : List (Int × Node)}
    (h : Edit uid cs cs') : hideChildren uid cs = hideChildren uid cs' := by
  induction h with
  | remove h => rw [hideChildren, if_pos h]
  | change h h' => rw [hideChildren, hideChildren, if_pos h, if_pos h']
  | setFrequency h =>
      rw [hideChildren, hideChildren, Node.hide, Node.hide, NodeKind.hide, NodeKind.hide,
        ownSettings_eq_of_edit h]
      rfl
  | initialFrequency h =>
      rw [hideChildren, hideChildren, Node.hide, Node.hide, NodeKind.hide, NodeKind.hide,
        ownSettings_eq_of_edit h]
      rfl
  | inside h ih =>
      rw [hideChildren, hideChildren, Node.hide, Node.hide, ih]
      rfl
  | @after child rest rest' h ih =>
      obtain ⟨offset, n⟩ := child
      rw [hideChildren, hideChildren, ih]

/-! ## Hiding and onsets -/

section Hiding

variable (uid : SignalUid)

/-- The onsets of items that concern the signal. -/
def ownOnsets (is : List Item) : List (Int × EventKind) :=
  (onsetsAll is).filter fun q => q.2.concerns uid

theorem ownOnsets_append (as bs : List Item) :
    ownOnsets uid (as ++ bs) = ownOnsets uid as ++ ownOnsets uid bs := by
  unfold ownOnsets
  rw [onsetsAll_append, List.filter_append]

theorem ownOnsets_untilStop {kind kind' : NodeKind} {length : Option Int} {start : Int}
    {items items' : Int → List Item}
    (h : ∀ stop, ownOnsets uid (items stop) = ownOnsets uid (items' stop)) :
    ownOnsets uid (untilStop kind length start items) =
      ownOnsets uid (untilStop kind' length start items') := by
  unfold untilStop stopOf
  cases length with
  | none => rfl
  | some length => exact h (addTicks start length)

theorem ownOnsets_span {start stop : Int} {what : Lasting} {inside inside' : List Item}
    (h : ownOnsets uid inside = ownOnsets uid inside') :
    ownOnsets uid [.span start stop what inside] =
      ownOnsets uid [.span start stop what inside'] := by
  unfold ownOnsets at h ⊢
  simp only [onsetsAll, Item.onsets, List.append_nil, List.filter_cons, h]

/-- Settings that do not concern the signal have no onsets that do. -/
theorem ownOnsets_settings {item : FrequencySetting → Item} (settings : List FrequencySetting)
    (h : ∀ s, uid ∉ s.oscillator.signals → ownOnsets uid [item s] = []) :
    ownOnsets uid (settings.map item) = ownOnsets uid ((ownSettings uid settings).map item) := by
  induction settings with
  | nil => rfl
  | cons s rest ih =>
      have hcons : (s :: rest).map item = [item s] ++ rest.map item := rfl
      unfold ownSettings at ih ⊢
      by_cases hs : uid ∈ s.oscillator.signals
      · rw [List.filter_cons_of_pos (by simpa using hs), hcons, ownOnsets_append, ih,
          ← ownOnsets_append]
        rfl
      · rw [List.filter_cons_of_neg (by simpa using hs), hcons, ownOnsets_append, h s hs, ih]
        rfl

/-- A foreign pulse has no onsets that concern the signal. -/
theorem ownOnsets_foreign {n : Node} (h : n.isForeign uid = true) (expand : Bool) (start : Int)
    (owner : Option SectionUid) : ownOnsets uid (n.outline expand start owner) = [] := by
  have hpulse : ∀ (kind : NodeKind) (length : Option Int) (activity : Activity)
      (pulse : PulseEvent), pulse.signal ≠ uid →
      ownOnsets uid (untilStop kind length start fun stop =>
        [.span start stop (.pulse activity pulse) []]) = [] := by
    intro kind length activity pulse hne
    unfold untilStop stopOf
    cases length with
    | none => rfl
    | some length =>
        simp [ownOnsets, onsetsAll, Item.onsets, Lasting.first, EventKind.concerns, hne]
  obtain ⟨kind, length, children⟩ := n
  cases kind with
  | play pulse =>
      have hne : pulse.signal ≠ uid := by simpa [Node.isForeign, NodeKind.pulseSignal?] using h
      rw [Node.outline]
      exact hpulse _ _ _ _ hne
  | acquire signal handle kernel =>
      have hne : signal ≠ uid := by simpa [Node.isForeign, NodeKind.pulseSignal?] using h
      rw [Node.outline]
      exact hpulse _ _ _ _ hne
  | delay signal phaseIncrement phaseSet =>
      have hne : signal ≠ uid := by simpa [Node.isForeign, NodeKind.pulseSignal?] using h
      rw [Node.outline]
      exact hpulse _ _ _ _ hne
  | _ => cases h

theorem soundAll_append {as bs : List Item} : SoundAll (as ++ bs) ↔ SoundAll as ∧ SoundAll bs := by
  induction as with
  | nil => simp [SoundAll]
  | cons a as ih =>
      show a.Sound ∧ SoundAll (as ++ bs) ↔ (a.Sound ∧ SoundAll as) ∧ SoundAll bs
      rw [ih, and_assoc]

/-- What is sound up to a stop has that stop. -/
theorem sound_untilStop {kind : NodeKind} {length : Option Int} {start : Int}
    {items : Int → List Item} (h : SoundAll (untilStop kind length start items)) :
    ∃ stop, stopOf kind length start = .ok stop ∧ SoundAll (items stop) := by
  unfold untilStop at h
  cases hstop : stopOf kind length start with
  | error x =>
      rw [hstop] at h
      exact absurd h.1 (fun hf => hf)
  | ok stop =>
      rw [hstop] at h
      exact ⟨stop, rfl, h⟩

mutual

/-- Hiding the other signals keeps the onsets of a signal. -/
theorem onsets_hide (expand : Bool) : ∀ (n : Node) (start : Int) (owner : Option SectionUid),
    SoundAll (n.outline expand start owner) →
      ownOnsets uid (n.outline expand start owner) =
        ownOnsets uid ((n.hide uid).outline expand start owner)
  | ⟨.root, length, children⟩, start, owner, h => by
      simp only [Node.hide, NodeKind.hide, Node.outline]
      exact onsets_hideChildren expand children start owner h
  | ⟨.sect sectUid, length, children⟩, start, owner, h => by
      simp only [Node.hide, NodeKind.hide, Node.outline]
      rw [Node.outline] at h
      obtain ⟨stop, _, hsound, _⟩ := sound_untilStop h
      exact ownOnsets_untilStop uid fun stop =>
        ownOnsets_span uid (onsets_hideChildren expand children start (some sectUid) hsound)
  | ⟨.loop owner count, length, children⟩, start, _, h => by
      simp only [Node.hide, NodeKind.hide, Node.outline]
      rw [Node.outline] at h
      obtain ⟨stop, _, hsound, _⟩ := sound_untilStop h
      exact ownOnsets_untilStop uid fun stop =>
        ownOnsets_span uid (onsets_hideIterations expand owner children start hsound)
  | ⟨.iteration .., _, _⟩, start, owner, h => by
      rw [Node.outline] at h
      exact absurd h.1 (fun hf => hf)
  | ⟨.play pulse, length, children⟩, start, owner, h => by
      simp only [Node.hide, NodeKind.hide, Node.outline]
  | ⟨.acquire signal handle kernel, length, children⟩, start, owner, h => by
      simp only [Node.hide, NodeKind.hide, Node.outline]
  | ⟨.delay signal phaseIncrement phaseSet, length, children⟩, start, owner, h => by
      simp only [Node.hide, NodeKind.hide, Node.outline]
  | ⟨.setFrequency owner settings iteration, length, children⟩, start, _, h => by
      simp only [Node.hide, NodeKind.hide, Node.outline]
      refine ownOnsets_untilStop uid fun stop => ownOnsets_settings uid settings fun s hs => ?_
      simp [ownOnsets, onsetsAll, Item.onsets, Lasting.first, EventKind.concerns,
        FrequencySetting.event, hs]
  | ⟨.initialFrequency settings, length, children⟩, start, owner, h => by
      simp only [Node.hide, NodeKind.hide, Node.outline]
      refine ownOnsets_settings uid settings fun s hs => ?_
      simp [ownOnsets, onsetsAll, Item.onsets, Momentary.kind, EventKind.concerns,
        FrequencySetting.event, hs]
  | ⟨.resetSoftwarePhase own, length, children⟩, start, owner, h => by
      simp only [Node.hide, NodeKind.hide, Node.outline]
  | ⟨.resetHardwarePhase signals, length, children⟩, start, owner, h => by
      simp only [Node.hide, NodeKind.hide, Node.outline]
termination_by structural n => n

/-- Hiding does not change the onsets that concern the signal. -/
theorem onsets_hideChildren (expand : Bool) : ∀ (children : List (Int × Node)) (start : Int)
    (owner : Option SectionUid), SoundAll (childOutlines expand children start owner) →
      ownOnsets uid (childOutlines expand children start owner) =
        ownOnsets uid (childOutlines expand (hideChildren uid children) start owner)
  | [], start, owner, h => rfl
  | (offset, child) :: children, start, owner, h => by
      rw [childOutlines, soundAll_append] at h
      have hrest := onsets_hideChildren expand children start owner h.2
      rw [childOutlines, ownOnsets_append, hideChildren]
      split
      · rename_i hforeign
        rw [ownOnsets_foreign uid hforeign, List.nil_append, hrest]
      · rw [childOutlines, ownOnsets_append, ← hrest,
          onsets_hide expand child (addTicks start offset) owner h.1]
termination_by structural children => children

theorem onsets_hideIterations (expand : Bool) (owner : SectionUid) :
    ∀ (children : List (Int × Node)) (start : Int),
      SoundAll (iterationOutlines expand owner children start) →
        ownOnsets uid (iterationOutlines expand owner children start) =
          ownOnsets uid (iterationOutlines expand owner (hideChildren uid children) start)
  | [], start, h => rfl
  | (offset, ⟨.iteration own index parameters, length, inner⟩) :: children, start, h => by
      rw [iterationOutlines, soundAll_append] at h
      obtain ⟨hfirst, hothers⟩ := h
      obtain ⟨stop, _, hsound, _⟩ := sound_untilStop hfirst
      have hinner := onsets_hideChildren expand inner (addTicks start offset) (some owner) hsound
      have hnot : Node.isForeign uid ⟨.iteration own index parameters, length, inner⟩ = false := rfl
      simp only [hideChildren, hnot, Bool.false_eq_true, if_false, Node.hide, NodeKind.hide,
        iterationOutlines, ownOnsets_append]
      refine congr (congrArg HAppend.hAppend (ownOnsets_untilStop uid fun stop =>
        ownOnsets_span uid hinner)) ?_
      cases expand with
      | false => rfl
      | true => exact onsets_hideIterations true owner children start hothers
  | (_, ⟨.root, _, _⟩) :: _, start, h => absurd h.1 (fun hf => hf)
  | (_, ⟨.sect .., _, _⟩) :: _, start, h => absurd h.1 (fun hf => hf)
  | (_, ⟨.loop .., _, _⟩) :: _, start, h => absurd h.1 (fun hf => hf)
  | (_, ⟨.play .., _, _⟩) :: _, start, h => absurd h.1 (fun hf => hf)
  | (_, ⟨.acquire .., _, _⟩) :: _, start, h => absurd h.1 (fun hf => hf)
  | (_, ⟨.delay .., _, _⟩) :: _, start, h => absurd h.1 (fun hf => hf)
  | (_, ⟨.setFrequency .., _, _⟩) :: _, start, h => absurd h.1 (fun hf => hf)
  | (_, ⟨.initialFrequency .., _, _⟩) :: _, start, h => absurd h.1 (fun hf => hf)
  | (_, ⟨.resetSoftwarePhase .., _, _⟩) :: _, start, h => absurd h.1 (fun hf => hf)
  | (_, ⟨.resetHardwarePhase .., _, _⟩) :: _, start, h => absurd h.1 (fun hf => hf)
termination_by structural children => children

end

end Hiding

end PulseTimeline
