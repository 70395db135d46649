/-
  The order in which a sweep visits events.

  1. **Stable sort** — sorting by a total comparison gives a sorted list and keeps the order of ties
     (`pairwise_stableSort`), depends only on how earlier elements compare with later ones
     (`stableSort_congr`), and goes through a map that keeps the comparison (`stableSort_map`).

  2. **Place** — `Event.place` is the key by which a sweep sorts: instant, rank, id, compared in
     this order.  Events with different ids have different places.

  3. **Queue** — `queue rank events` are the events that a sweep visits, one after the other.  With
     distinct ids it is the only increasing arrangement of the ranked events (`eq_queue`), hence the
     same for every order of the list (`queue_perm_congr`), and the queue of a part of the list is
     that part of the queue (`queue_filter`, `queue_sublist`).
-/
import Mathlib.Data.List.Nodup
import Mathlib.Data.Prod.Lex
import PulseTimeline.Event.Sweep

namespace PulseTimeline

/-! ## The stable sort -/

section StableSort

variable {α β : Type}

section Total

variable {le : α → α → Bool} (htotal : ∀ a b, le a b = false → le b a = true)
  (htrans : ∀ a b c, le a b = true → le b c = true → le a c = true) {behind : α → α → Prop}
include htotal htrans

/-- Insertion keeps a list sorted, and equals in their order. -/
theorem pairwise_insertSorted {x : α} {ys : List α} (hx : ∀ y ∈ ys, behind x y)
    (h : ys.Pairwise fun a b => le a b = true ∧ (le b a = true → behind a b)) :
    (insertSorted le x ys).Pairwise fun a b => le a b = true ∧ (le b a = true → behind a b) := by
  induction ys with
  | nil => exact List.pairwise_singleton ..
  | cons y ys ih =>
      obtain ⟨hxy, hxys⟩ := List.forall_mem_cons.mp hx
      obtain ⟨hy, hys⟩ := List.pairwise_cons.mp h
      simp only [insertSorted]
      split
      · rename_i hle
        refine List.pairwise_cons.mpr ⟨fun z hz => ?_, h⟩
        rcases List.mem_cons.mp hz with rfl | hz
        · exact ⟨hle, fun _ => hxy⟩
        · exact ⟨htrans x y z hle (hy z hz).1, fun _ => hxys z hz⟩
      · rename_i hnot
        refine List.pairwise_cons.mpr ⟨fun z hz => ?_, ih hxys hys⟩
        rcases List.mem_cons.mp ((insertSorted_perm le x ys).mem_iff.mp hz) with rfl | hz
        · exact ⟨htotal z y (eq_false_of_ne_true hnot), fun hle => absurd hle hnot⟩
        · exact hy z hz

/-- Sorting by a total comparison gives a sorted list, in which elements that compare both ways
    still are one behind the other as they were. -/
theorem pairwise_stableSort {xs : List α} (h : xs.Pairwise behind) :
    (stableSort le xs).Pairwise fun a b => le a b = true ∧ (le b a = true → behind a b) := by
  induction xs with
  | nil => exact List.Pairwise.nil
  | cons x xs ih =>
      obtain ⟨hx, hxs⟩ := List.pairwise_cons.mp h
      refine pairwise_insertSorted htotal htrans (fun y hy => ?_) (ih hxs)
      exact hx y ((stableSort_perm le xs).mem_iff.mp hy)

end Total

/-- Insertion compares with the elements of the list only. -/
theorem insertSorted_congr {le le' : α → α → Bool} {x : α} {ys : List α}
    (h : ∀ y ∈ ys, le x y = le' x y) : insertSorted le x ys = insertSorted le' x ys := by
  induction ys with
  | nil => rfl
  | cons y ys ih =>
      have hy : le x y = le' x y := h y List.mem_cons_self
      have hys := ih fun z hz => h z (List.mem_cons_of_mem _ hz)
      simp only [insertSorted, hy, hys]

/-- A stable sort compares an element only with those that stand behind it in the list. -/
theorem stableSort_congr {le le' : α → α → Bool} {xs : List α}
    (h : xs.Pairwise fun a b => le a b = le' a b) : stableSort le xs = stableSort le' xs := by
  induction xs with
  | nil => rfl
  | cons x xs ih =>
      obtain ⟨hx, hxs⟩ := List.pairwise_cons.mp h
      show insertSorted le x (stableSort le xs) = insertSorted le' x (stableSort le' xs)
      rw [ih hxs]
      exact insertSorted_congr fun y hy => hx y ((stableSort_perm le' xs).mem_iff.mp hy)

/-- It does not matter whether the elements are mapped before an insertion or after it. -/
theorem insertSorted_map (f : α → β) (le : β → β → Bool) (x : α) (ys : List α) :
    insertSorted le (f x) (ys.map f) = (insertSorted (fun a b => le (f a) (f b)) x ys).map f := by
  induction ys with
  | nil => rfl
  | cons y ys ih =>
      simp only [List.map_cons, insertSorted, ih]
      split <;> rfl

/-- Nor whether they are before sorting or after it. -/
theorem stableSort_map (f : α → β) (le : β → β → Bool) (xs : List α) :
    stableSort le (xs.map f) = (stableSort (fun a b => le (f a) (f b)) xs).map f := by
  induction xs with
  | nil => rfl
  | cons x xs ih =>
      show insertSorted le (f x) (stableSort le (xs.map f)) = _
      rw [ih, insertSorted_map]
      rfl

end StableSort

/-! ## Parts of a list -/

/-- Part of a list without repetitions is what it filters out of the list. -/
theorem eq_filter_of_sublist {α : Type} [DecidableEq α] {as bs : List α} (h : as.Sublist bs)
    (hnodup : bs.Nodup) : as = bs.filter (· ∈ as) := by
  induction h with
  | slnil => rfl
  | @cons as bs b hsub ih =>
      obtain ⟨hb, hbs⟩ := List.nodup_cons.mp hnodup
      have hnot : b ∉ as := fun hmem => hb (hsub.subset hmem)
      rw [List.filter_cons_of_neg (by simpa using hnot)]
      exact ih hbs
  | @cons_cons as bs b hsub ih =>
      obtain ⟨hb, hbs⟩ := List.nodup_cons.mp hnodup
      have htail : bs.filter (· ∈ b :: as) = bs.filter (· ∈ as) := by
        refine List.filter_congr fun c hc => ?_
        have hne : c ≠ b := fun hcb => hb (hcb ▸ hc)
        simp [hne]
      rw [List.filter_cons_of_pos (by simp), htail, ← ih hbs]

/-! ## The place of an event -/

/-- The key by which a sweep sorts: the instant, then the rank of the type, then the id. -/
def Event.place (rank : EventType → Option Int) (e : Event) : Int ×ₗ Int ×ₗ Nat :=
  toLex (e.time.key, toLex ((rank e.type).getD 0, e.id))

/-- A place is compared by time first, then by rank, then by id. -/
theorem Event.place_le_iff {rank : EventType → Option Int} {a b : Event} :
    a.place rank ≤ b.place rank ↔
      a.time.key < b.time.key ∨ a.time.key = b.time.key ∧
        ((rank a.type).getD 0 < (rank b.type).getD 0 ∨
          (rank a.type).getD 0 = (rank b.type).getD 0 ∧ a.id ≤ b.id) := by
  simp only [Event.place, Prod.Lex.toLex_le_toLex]

theorem Event.place_lt_iff {rank : EventType → Option Int} {a b : Event} :
    a.place rank < b.place rank ↔
      a.time.key < b.time.key ∨ a.time.key = b.time.key ∧
        ((rank a.type).getD 0 < (rank b.type).getD 0 ∨
          (rank a.type).getD 0 = (rank b.type).getD 0 ∧ a.id < b.id) := by
  simp only [Event.place, Prod.Lex.toLex_lt_toLex]

/-- Events at the same place have the same id. -/
theorem Event.id_eq_of_place_eq {rank : EventType → Option Int} {a b : Event}
    (h : a.place rank = b.place rank) : a.id = b.id := by
  have h' := congrArg ofLex h
  exact congrArg Prod.snd (congrArg ofLex (congrArg Prod.snd h'))

/-- The key of a selected event; its rank has been looked up already. -/
def Selected.place (x : Selected) : Int ×ₗ Int ×ₗ Nat :=
  toLex (x.event.time.key, toLex (x.rank, x.event.id))

theorem Selected.le_iff {a b : Selected} : Selected.le a b = true ↔ a.place ≤ b.place := by
  simp only [Selected.le, Selected.place, Prod.Lex.toLex_le_toLex]
  split
  · rename_i ht
    split
    · rename_i hr
      simp [ht, hr]
    · rename_i hr
      simp [ht, hr]
  · rename_i ht
    simp [ht]

/-! ## Selecting the events with a rank -/

/-- What is selected is an event of the list with its index and its rank. -/
theorem mem_selectFrom {rank : EventType → Option Int} {start : Nat} {events : List Event}
    {x : Selected} (h : x ∈ selectFrom rank start events) :
    start ≤ x.index ∧ events[x.index - start]? = some x.event ∧
      rank x.event.type = some x.rank := by
  induction events generalizing start with
  | nil => simp [selectFrom] at h
  | cons e es ih =>
      -- An event behind the head is found one place further on.
      have hstep : x ∈ selectFrom rank (start + 1) es →
          start ≤ x.index ∧ (e :: es)[x.index - start]? = some x.event ∧
            rank x.event.type = some x.rank := by
        intro hx
        obtain ⟨hle, hget, hrank⟩ := ih hx
        have hidx : x.index - start = (x.index - (start + 1)) + 1 := by omega
        refine ⟨by omega, ?_, hrank⟩
        rw [hidx, List.getElem?_cons_succ]
        exact hget
      simp only [selectFrom] at h
      split at h
      · rename_i r hr
        rcases List.mem_cons.mp h with rfl | h
        · exact ⟨Nat.le_refl _, by simp, hr⟩
        · exact hstep h
      · exact hstep h

/-- An event with a rank is selected. -/
theorem selected_of_ranked {rank : EventType → Option Int} (start : Nat) {events : List Event}
    {i : Nat} {e : Event} {r : Int} (he : events[i]? = some e) (hr : rank e.type = some r) :
    (⟨start + i, e, r⟩ : Selected) ∈ selectFrom rank start events := by
  induction events generalizing start i with
  | nil => simp at he
  | cons e' es ih =>
      cases i with
      | zero =>
          rw [List.getElem?_cons_zero, Option.some.injEq] at he
          subst he
          simp only [selectFrom, hr]
          exact List.mem_cons_self
      | succ j =>
          have hrest := ih (start + 1) (by simpa using he)
          have hidx : start + 1 + j = start + (j + 1) := by omega
          rw [hidx] at hrest
          simp only [selectFrom]
          split
          · exact List.mem_cons_of_mem _ hrest
          · exact hrest

/-- The selected events are those with a rank, in the order of the list. -/
theorem map_event_selectFrom (rank : EventType → Option Int) (start : Nat) (events : List Event) :
    (selectFrom rank start events).map Selected.event =
      events.filter fun e => (rank e.type).isSome := by
  induction events generalizing start with
  | nil => rfl
  | cons e es ih =>
      simp only [selectFrom]
      split
      · rename_i r hr
        rw [List.map_cons, ih, List.filter_cons_of_pos (by simp [hr])]
      · rename_i hr
        rw [ih, List.filter_cons_of_neg (by simp [hr])]

/-- Events are selected in the order of the list. -/
theorem increasing_selectFrom (rank : EventType → Option Int) (start : Nat)
    (events : List Event) :
    (selectFrom rank start events).Pairwise fun x y => x.index < y.index := by
  induction events generalizing start with
  | nil => exact List.Pairwise.nil
  | cons e es ih =>
      simp only [selectFrom]
      split
      · exact List.pairwise_cons.mpr ⟨fun x hx => (mem_selectFrom hx).1, ih (start + 1)⟩
      · exact ih (start + 1)

/-- No event is selected twice. -/
theorem nodup_index_selectFrom (rank : EventType → Option Int) (start : Nat)
    (events : List Event) : ((selectFrom rank start events).map Selected.index).Nodup :=
  List.pairwise_map.mpr ((increasing_selectFrom rank start events).imp Nat.ne_of_lt)

/-! ## The queue -/

/-- The events that a sweep visits, in its order. -/
def queue (rank : EventType → Option Int) (events : List Event) : List Event :=
  (sweepOrder rank events).map Selected.event

/-- The queue holds the events with a rank, in another order. -/
theorem queue_perm (rank : EventType → Option Int) (events : List Event) :
    (queue rank events).Perm (events.filter fun e => (rank e.type).isSome) := by
  rw [← map_event_selectFrom rank 0 events]
  exact (stableSort_perm _ _).map _

theorem mem_queue {rank : EventType → Option Int} {events : List Event} {e : Event} :
    e ∈ queue rank events ↔ e ∈ events ∧ (rank e.type).isSome = true := by
  rw [(queue_perm rank events).mem_iff, List.mem_filter]

theorem mem_sweepOrder {rank : EventType → Option Int} {events : List Event} {x : Selected}
    (h : x ∈ sweepOrder rank events) :
    events[x.index]? = some x.event ∧ rank x.event.type = some x.rank :=
  (mem_selectFrom ((stableSort_perm _ _).mem_iff.mp h)).2

theorem nodup_index_sweepOrder (rank : EventType → Option Int) (events : List Event) :
    ((sweepOrder rank events).map Selected.index).Nodup :=
  (((stableSort_perm Selected.le _).map Selected.index).nodup_iff).mpr
    (nodup_index_selectFrom rank 0 events)

/-- A sweep goes from place to place, and through events at the same place in the order of the
    list. -/
theorem sweepOrder_sorted (rank : EventType → Option Int) (events : List Event) :
    (sweepOrder rank events).Pairwise fun x y => x.event.place rank ≤ y.event.place rank ∧
      (y.event.place rank ≤ x.event.place rank → x.index < y.index) := by
  have hsorted : (sweepOrder rank events).Pairwise fun x y =>
      Selected.le x y = true ∧ (Selected.le y x = true → x.index < y.index) := by
    refine pairwise_stableSort ?_ ?_ (increasing_selectFrom rank 0 events)
    · intro a b h
      have hnot : ¬ a.place ≤ b.place := by
        rw [← Selected.le_iff, h]
        simp
      exact Selected.le_iff.mpr (le_of_lt (not_le.mp hnot))
    · intro a b c hab hbc
      exact Selected.le_iff.mpr (le_trans (Selected.le_iff.mp hab) (Selected.le_iff.mp hbc))
  have hplace : ∀ x ∈ sweepOrder rank events, x.event.place rank = x.place := by
    intro x hx
    simp [Event.place, Selected.place, (mem_sweepOrder hx).2]
  refine hsorted.imp_of_mem ?_
  intro x y hx hy hxy
  rw [hplace x hx, hplace y hy, ← Selected.le_iff, ← Selected.le_iff]
  exact hxy

/-- The queue is sorted by place. -/
theorem queue_sorted (rank : EventType → Option Int) (events : List Event) :
    (queue rank events).Pairwise fun a b => a.place rank ≤ b.place rank :=
  List.pairwise_map.mpr ((sweepOrder_sorted rank events).imp And.left)

section Distinct

variable {rank : EventType → Option Int} {events events' : List Event}

/-- With distinct ids, the queue is the only arrangement of the ranked events in order. -/
theorem eq_queue (hids : (events.map Event.id).Nodup) {es : List Event}
    (hperm : es.Perm (events.filter fun e => (rank e.type).isSome))
    (hsorted : es.Pairwise fun a b => a.place rank ≤ b.place rank) : es = queue rank events := by
  refine List.Perm.eq_of_pairwise ?_ hsorted (queue_sorted rank events)
    (hperm.trans (queue_perm rank events).symm)
  intro a b ha hb hab hba
  have hid : a.id = b.id := Event.id_eq_of_place_eq (le_antisymm hab hba)
  have ha' : a ∈ events := (List.mem_filter.mp (hperm.mem_iff.mp ha)).1
  exact List.inj_on_of_nodup_map hids ha' (mem_queue.mp hb).1 hid

/-- The queue does not depend on the order of the list. -/
theorem queue_perm_congr (hids : (events.map Event.id).Nodup) (hperm : events'.Perm events) :
    queue rank events' = queue rank events :=
  eq_queue hids ((queue_perm rank events').trans (hperm.filter _)) (queue_sorted rank events')

/-- With distinct ids, no two events of the queue have the same place. -/
theorem queue_strict (hids : (events.map Event.id).Nodup) :
    (queue rank events).Pairwise fun a b => a.place rank < b.place rank := by
  have hnodup : ((queue rank events).map Event.id).Nodup := by
    rw [((queue_perm rank events).map Event.id).nodup_iff]
    exact hids.sublist (List.filter_sublist.map Event.id)
  have hne := List.pairwise_map.mp hnodup
  refine ((queue_sorted rank events).and hne).imp ?_
  rintro a b ⟨hle, hid⟩
  exact lt_of_le_of_ne hle fun h => hid (Event.id_eq_of_place_eq h)

/-- The queue of a part of the list is that part of the queue. -/
theorem queue_filter (hids : (events.map Event.id).Nodup) (p : Event → Bool) :
    queue rank (events.filter p) = (queue rank events).filter p := by
  have hids' : ((events.filter p).map Event.id).Nodup :=
    hids.sublist (List.filter_sublist.map Event.id)
  refine (eq_queue hids' ?_ ((queue_sorted rank events).filter p)).symm
  have h := (queue_perm rank events).filter p
  rw [List.filter_filter] at h ⊢
  simpa only [Bool.and_comm] using h

/-- A part of the list is visited in the order in which the whole list is. -/
theorem queue_sublist (hids : (events.map Event.id).Nodup) (hsub : events'.Sublist events) :
    queue rank events' = (queue rank events).filter (· ∈ events') := by
  have hpart : events' = events.filter (· ∈ events') := eq_filter_of_sublist hsub hids.of_map
  conv => lhs; rw [hpart]
  exact queue_filter hids _

end Distinct

end PulseTimeline
