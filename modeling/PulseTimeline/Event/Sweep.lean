/-
  Sweeping over a list of events in order of time.

  The passes over a timeline carry a state from event to event in the order in which the events
  happen, whatever the order of the list, and change some events in place.

  1. **Order** — `sweepOrder rank events` selects the events whose type has a rank, and orders them
     by instant, then by rank, then by id; what is still tied keeps the order of the list.  The
     comparison is total on all events, since instants are compared by `Seconds.key`.

  2. **Sweep** — `sweep` runs a step over the selected events in that order and puts every event
     that the step returns back at its place in the list.
-/
import PulseTimeline.Event

namespace PulseTimeline

/-! ## A stable sort -/

/-- Put `x` before the first element that it may precede. -/
def insertSorted {α : Type} (le : α → α → Bool) (x : α) : List α → List α
  | [] => [x]
  | y :: ys => if le x y then x :: y :: ys else y :: insertSorted le x ys

/-- Sort by a total comparison; elements that compare both ways keep their order.  The recursion is
    on the list alone, so that a sort can also be evaluated inside a proof. -/
def stableSort {α : Type} (le : α → α → Bool) : List α → List α
  | [] => []
  | x :: xs => insertSorted le x (stableSort le xs)

theorem insertSorted_perm {α : Type} (le : α → α → Bool) (x : α) (ys : List α) :
    (insertSorted le x ys).Perm (x :: ys) := by
  induction ys with
  | nil => exact .refl _
  | cons y ys ih =>
      simp only [insertSorted]
      split
      · exact .refl _
      · exact (List.Perm.cons y ih).trans (List.Perm.swap x y ys)

theorem stableSort_perm {α : Type} (le : α → α → Bool) (xs : List α) :
    (stableSort le xs).Perm xs := by
  induction xs with
  | nil => exact .refl _
  | cons x xs ih => exact (insertSorted_perm le x _).trans (List.Perm.cons x ih)

/-! ## The order of a sweep -/

/-- A selected event, its place in the list, and the rank of its type. -/
structure Selected where
  index : Nat
  event : Event
  rank : Int
deriving DecidableEq

/-- Whether `a` may come before `b`: the earlier instant first, then the lower rank, then the lower
    id. -/
def Selected.le (a b : Selected) : Bool :=
  if a.event.time.key = b.event.time.key then
    if a.rank = b.rank then a.event.id ≤ b.event.id else a.rank < b.rank
  else a.event.time.key < b.event.time.key

/-- The events of `events`, numbered from `start`, whose type has a rank. -/
def selectFrom (rank : EventType → Option Int) : Nat → List Event → List Selected
  | _, [] => []
  | start, e :: es =>
      match rank e.type with
      | some r => ⟨start, e, r⟩ :: selectFrom rank (start + 1) es
      | none => selectFrom rank (start + 1) es

/-- The events whose type has a rank, in order of instant, rank and id. -/
def sweepOrder (rank : EventType → Option Int) (events : List Event) : List Selected :=
  stableSort Selected.le (selectFrom rank 0 events)

/-! ## The sweep -/

/-- Carry a state over the selected events; the events that `step` returns, with their places. -/
def runSweep {σ : Type} {m : Type → Type} [Monad m] (step : σ → Event → m (σ × Event)) :
    σ → List Selected → m (List (Nat × Event))
  | _, [] => pure []
  | state, x :: xs => do
      let (state, event) ← step state x.event
      let rest ← runSweep step state xs
      pure ((x.index, event) :: rest)

/-- Put events back at their places. -/
def putBack (events : List Event) (resolved : List (Nat × Event)) : List Event :=
  (resolved.foldl (fun events (i, e) => events.setIfInBounds i e) events.toArray).toList

/-- Run `step` over the events whose type has a rank, in order of instant, rank and id, from the
    state `init`, and change these events in place. -/
def sweep {σ : Type} {m : Type → Type} [Monad m] (rank : EventType → Option Int)
    (step : σ → Event → m (σ × Event)) (init : σ) (events : List Event) : m (List Event) := do
  let resolved ← runSweep step init (sweepOrder rank events)
  pure (putBack events resolved)

end PulseTimeline
