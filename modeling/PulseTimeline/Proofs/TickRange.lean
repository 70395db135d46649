/-
  Sums of ticks within the range of ticks.

  Lowering adds up ticks in 64 bits.  Arithmetic that wraps around goes on behind a sum that does
  not fit, and arithmetic that checks its sums stops there: the tree has no timeline.

  1. **Sums** — the starts and ends that a lowering adds up, none of them wrapped around
     (`Node.sums`).  Checked arithmetic has a result only if all of them fit (`checked`).

  2. **Places** — the sums fit if and only if every place of the tour is in range: its start, and
     its end if it has one (`isTick_sums`).

  3. **Success** — so it is decided for both kinds of arithmetic when an experiment has a timeline
     (`timeline_exists_iff`).
-/
import PulseTimeline.Proofs.Tour

namespace PulseTimeline

/-! ## Sums -/

/-- The end of a node that starts at `start`, if its end is an event and its length is known. -/
def NodeKind.ends (kind : NodeKind) (length : Option Int) (start : Int) : List Int :=
  if kind.lasts then length.toList.map (start + ·) else []

mutual

/-- The sums that lowering a tree adds up, none wrapped around: the start of the root, its end, and
    the sums of what it holds. -/
def Node.sums (expand : Bool) : Node → Int → List Int
  | ⟨kind, length, children⟩, start =>
      start :: (kind.ends length start ++
        if kind.holds then childSums expand children kind.isLoop start else [])
termination_by structural n => n

/-- The sums of children of a node that starts at `start`; of the children of a loop only the first
    one is lowered if loops are not expanded. -/
def childSums (expand : Bool) : List (Int × Node) → Bool → Int → List Int
  | [], _, _ => []
  | (offset, child) :: children, inLoop, start =>
      child.sums expand (start + offset) ++
        if expand || !inLoop then childSums expand children inLoop start else []
termination_by structural children => children

end

namespace Experiment

/-- The sums that lowering an experiment adds up, if it has a tree. -/
def sums (x : Experiment) (expand : Bool) : List Int :=
  match x.root with
  | some root => root.sums expand 0
  | none => []

/-- What comes out of a lowering by checked arithmetic: nothing if it fails, nor if one of its sums
    does not fit. -/
def checked {α : Type} (x : Experiment) (expand : Bool) (outcome : Except TimelineError α) :
    Option α :=
  if ∀ n ∈ x.sums expand, IsTick n then outcome.toOption else none

end Experiment

/-! ## Places -/

/-- Whether the start of a place is within the range of ticks, and its end if that is an event. -/
structure Place.InRange (p : Place) : Prop where
  start : IsTick p.offsets.sum
  stop : p.kind.lasts = true → ∀ length, p.length = some length → IsTick (p.offsets.sum + length)

/-- There is an end to ask for only if it is an event and its length is known. -/
theorem NodeKind.forall_ends {kind : NodeKind} {length : Option Int} {start : Int}
    {P : Int → Prop} : (∀ n ∈ kind.ends length start, P n) ↔
      (kind.lasts = true → ∀ ticks, length = some ticks → P (start + ticks)) := by
  unfold ends
  cases kind.lasts <;> cases length <;> simp

/-- Where nothing is toured there are no sums and no places. -/
theorem inRange_nil : (∀ n ∈ ([] : List Int), IsTick n) ↔
    ∀ p, .enter p ∈ ([] : List Passage) → p.InRange :=
  iff_of_true (List.forall_mem_nil _) fun _ h => nomatch h

/-- The places that a tour of a node enters: its own, and those inside. -/
theorem forall_entered {p : Place} {inside : List Passage} {P : Place → Prop} :
    (∀ q, .enter q ∈ .enter p :: (inside ++ [.leave p]) → P q) ↔
      P p ∧ ∀ q, .enter q ∈ inside → P q := by
  simp

mutual

/-- The sums of a tree fit if and only if the places of its tour are in range. -/
theorem Node.isTick_sums (expand : Bool) : ∀ (n : Node) (offsets : List Int)
    (above : List NodeKind), (∀ s ∈ n.sums expand offsets.sum, IsTick s) ↔
      ∀ p, .enter p ∈ n.tour expand offsets above → p.InRange
  | ⟨kind, length, children⟩, offsets, above => by
      have hplace : (Place.mk kind length offsets above).InRange ↔ IsTick offsets.sum ∧
          ∀ n ∈ kind.ends length offsets.sum, IsTick n := by
        rw [NodeKind.forall_ends]
        exact ⟨fun h => ⟨h.start, h.stop⟩, fun h => ⟨h.1, h.2⟩⟩
      rw [Node.sums, Node.tour, forall_entered, hplace, List.forall_mem_cons,
        List.forall_mem_append, and_assoc]
      refine and_congr_right fun _ => and_congr_right fun _ => ?_
      split
      · exact isTick_childSums expand children kind.isLoop offsets (kind :: above)
      · exact inRange_nil
termination_by structural n => n

theorem isTick_childSums (expand : Bool) : ∀ (children : List (Int × Node)) (inLoop : Bool)
    (offsets : List Int) (above : List NodeKind),
    (∀ s ∈ childSums expand children inLoop offsets.sum, IsTick s) ↔
      ∀ p, .enter p ∈ childTours expand children inLoop offsets above → p.InRange
  | [], inLoop, offsets, above => inRange_nil
  | (offset, child) :: children, inLoop, offsets, above => by
      have hchild := Node.isTick_sums expand child (offset :: offsets) above
      rw [List.sum_cons, Int.add_comm] at hchild
      rw [childSums, childTours, List.forall_mem_append, hchild]
      simp only [List.mem_append, or_imp, forall_and]
      refine and_congr_right fun _ => ?_
      split
      · exact isTick_childSums expand children inLoop offsets above
      · exact inRange_nil
termination_by structural children => children

end

namespace Experiment

variable {x : Experiment}

/-- The sums of an experiment fit if and only if the places of its tour are in range. -/
theorem isTick_sums {expand : Bool} : (∀ n ∈ x.sums expand, IsTick n) ↔
    ∀ p, .enter p ∈ x.tour expand → p.InRange := by
  unfold sums tour
  cases x.root with
  | none => exact inRange_nil
  | some root => exact root.isTick_sums expand [] []

/-- Checked arithmetic has a result if and only if there is one and the tour stays in range. -/
theorem checked_exists_iff {α : Type} {expand : Bool} {outcome : Except TimelineError α} :
    (∃ a, x.checked expand outcome = some a) ↔
      (∃ a, outcome = .ok a) ∧ ∀ p, .enter p ∈ x.tour expand → p.InRange := by
  unfold checked
  rw [← isTick_sums]
  split
  · rename_i h
    rw [and_iff_left h]
    cases outcome <;> simp [Except.toOption]
  · rename_i h
    exact iff_of_false nofun fun hboth => h hboth.2

end Experiment

/-! ## Success -/

/-- An experiment has a timeline if and only if its tree can be lowered and what it lowers to can be
    resolved.  Both are asked of every site by itself, the limit apart; the tick and what is logged
    do not matter.  So it is if sums of ticks wrap around.  If they are checked instead, then in
    addition every place of the tour has to be in range. -/
theorem timeline_exists_iff (x : Experiment) (d : Diagnostics) (tick : Float)
    (o : LoweringOptions) :
    ((∃ events, (x.timeline d tick o).outcome = .ok events) ↔
      x.Lowerable o ∧ x.Resolvable o.expandLoops) ∧
    ((∃ events, x.checked o.expandLoops (x.timeline d tick o).outcome = some events) ↔
      (x.Lowerable o ∧ x.Resolvable o.expandLoops) ∧
        ∀ p, .enter p ∈ x.tour o.expandLoops → p.InRange) := by
  have hexists := x.outcome_isOk d tick o
  refine ⟨hexists, ?_⟩
  rw [Experiment.checked_exists_iff, hexists]

/-- A section that starts at the last tick and takes no time, with a reset one tick after its
    start. -/
def brim : Experiment :=
  { duet with root := some ⟨.root, none, [
      (maxTick, ⟨.sect ⟨⟨7⟩⟩, some 0, [(1, .leaf (.resetSoftwarePhase none) none)]⟩)]⟩ }

/-- The reset wraps around to the first tick; checked arithmetic does not come that far. -/
example :
    (brim.marks true).map Mark.time = [0, maxTick, minTick, maxTick] ∧
    (brim.timeline ⟨false⟩ 1e-9 ⟨true, 3⟩).outcome.toOption.isSome = true ∧
    brim.checked true (brim.timeline ⟨false⟩ 1e-9 ⟨true, 3⟩).outcome = none := by
  decide +kernel

end PulseTimeline
