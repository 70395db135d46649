/-
  The order of a sweep, said without keys.

  1. **Total order** — `TotalLt` orders doubles by what they are: numbers in order, minus zero before
     plus zero, negative NaNs before all numbers and positive ones behind.  This is the order of the
     keys (`totalLt_iff`), hence a strict total order on all patterns.

  2. **Events** — `Event.Before` compares instants by it, then ranks, then ids.  Events with a rank
     are `Before` one another or `Tied` as their places are (`Event.before_iff`, `Event.tied_iff`).

  3. **Sweep** — `IsSweepOrder` says of a list of places in a list of events that it selects the
     events with a rank, each once, one before the other and ties in the order of the list.  There
     is exactly one such list, that of `sweepOrder`; with distinct ids it does not depend on the
     order of the events, and that of a part of the events is a part of it (`sweepOrder_canonical`).
-/
import PulseTimeline.Proofs.SweepOrder
import PulseTimeline.Proofs.TimeOrder
import PulseTimeline.Resolution.Phase

namespace PulseTimeline

namespace Binary64

/-! ## The total order of doubles -/

/-- Whether `a` comes before `b` in the total order of doubles: numbers in order, minus zero before
    plus zero; negative NaNs before all numbers, positive NaNs behind; of NaNs with the same sign
    the one with the lesser payload first if they are positive, last if they are negative. -/
def TotalLt (a b : UInt64) : Prop :=
  match isNaN a, isNaN b with
  | false, false => Float.ofBits a < Float.ofBits b ∨
      (Float.ofBits a == Float.ofBits b) = true ∧ isNegative a = true ∧ isNegative b = false
  | true, false => isNegative a = true
  | false, true => isNegative b = false
  | true, true => match isNegative a, isNegative b with
      | true, false => True
      | false, true => False
      | false, false => fraction a < fraction b
      | true, true => fraction b < fraction a

section Keys

variable {a b : UInt64}

/-- Numbers are in the order of their keys, minus zero before plus zero. -/
theorem totalLt_numbers (ha : isNaN a = false) (hb : isNaN b = false) :
    (Float.ofBits a < Float.ofBits b ∨
      (Float.ofBits a == Float.ofBits b) = true ∧ isNegative a = true ∧ isNegative b = false) ↔
    orderKey a < orderKey b := by
  have hm := number_iff.mp ha
  have hn := number_iff.mp hb
  rw [lt_ofBits_iff ha hb, beq_ofBits_iff ha hb]
  unfold sign orderKey
  cases isNegative a <;> cases isNegative b
  · show (datum .positive _).compare (datum .positive _) = _ ∨ _ ↔ (unsigned a : Int) < unsigned b
    rw [compare_positive hm hn, Option.some.injEq, Nat.compare_eq_lt, Int.ofNat_lt]
    exact or_iff_left fun h => nomatch h.2.1
  · show (datum .positive _).compare (datum .negative _) = _ ∨ _ ↔
      (unsigned a : Int) < -1 - unsigned b
    rw [compare_swap, compare_mixed hn hm]
    refine iff_of_false ?_ (by omega)
    rintro (h | ⟨-, h, -⟩)
    · split at h <;> cases h
    · cases h
  · show (datum .negative _).compare (datum .positive _) = _ ∨ _ ↔
      -1 - (unsigned a : Int) < unsigned b
    rw [compare_mixed hm hn]
    refine iff_of_true ?_ (by omega)
    -- The numbers are in order, unless both are zero; then the signs are.
    by_cases hzero : unsigned a = 0 ∧ unsigned b = 0
    · exact .inr ⟨(compare_mixed hm hn).trans (congrArg some (if_pos hzero)), rfl, rfl⟩
    · exact .inl (congrArg some (if_neg hzero))
  · show (datum .negative _).compare (datum .negative _) = _ ∨ _ ↔
      -1 - (unsigned a : Int) < -1 - unsigned b
    rw [compare_negative hm hn, Option.some.injEq, Nat.compare_eq_lt]
    refine (or_iff_left fun h => nomatch h.2.2).trans ?_
    omega

/-- A NaN is beyond all numbers, on the side of its sign. -/
theorem unsigned_lt_of_isNaN (ha : isNaN a = false) (hb : isNaN b = true) :
    unsigned a < unsigned b :=
  Nat.lt_of_le_of_lt (number_iff.mp ha) (of_decide_eq_true hb)

/-- NaNs differ in their payloads only. -/
theorem unsigned_lt_iff_of_isNaN (ha : isNaN a = true) (hb : isNaN b = true) :
    unsigned a < unsigned b ↔ fraction a < fraction b := by
  have hfa := (nan_iff.mp ha).1
  have hfb := (nan_iff.mp hb).1
  rw [unsigned_eq a, unsigned_eq b, hfa, hfb, Nat.add_lt_add_iff_left]

/-- The key of a pattern without sign is its magnitude. -/
theorem orderKey_of_positive (h : isNegative a = false) : orderKey a = unsigned a :=
  if_neg (ne_true_of_eq_false h)

/-- Negative patterns are counted downwards from below zero. -/
theorem orderKey_of_negative (h : isNegative a = true) : orderKey a = -1 - (unsigned a : Int) :=
  if_pos h

theorem orderKey_bounds (a : UInt64) :
    -1 - (unsigned a : Int) ≤ orderKey a ∧ orderKey a ≤ unsigned a := by
  unfold orderKey
  split <;> omega

/-- The order of the keys is the total order. -/
theorem totalLt_iff : TotalLt a b ↔ orderKey a < orderKey b := by
  unfold TotalLt
  split <;> rename_i ha hb
  · exact totalLt_numbers ha hb
  · -- A NaN beside a number: its sign alone decides.
    have hbeyond := unsigned_lt_of_isNaN hb ha
    have hkey := orderKey_bounds b
    cases hsa : isNegative a with
    | false => exact iff_of_false nofun (by rw [orderKey_of_positive hsa]; omega)
    | true => exact iff_of_true rfl (by rw [orderKey_of_negative hsa]; omega)
  · have hbeyond := unsigned_lt_of_isNaN ha hb
    have hkey := orderKey_bounds a
    cases hsb : isNegative b with
    | false => exact iff_of_true rfl (by rw [orderKey_of_positive hsb]; omega)
    | true => exact iff_of_false nofun (by rw [orderKey_of_negative hsb]; omega)
  · -- Two NaNs: the sign, then the payload, which counts backwards below all numbers.
    split <;> rename_i hsa hsb
    · rw [orderKey_of_negative hsa, orderKey_of_positive hsb]
      exact iff_of_true trivial (by omega)
    · rw [orderKey_of_positive hsa, orderKey_of_negative hsb]
      exact iff_of_false id (by omega)
    · rw [orderKey_of_positive hsa, orderKey_of_positive hsb, Int.ofNat_lt,
        unsigned_lt_iff_of_isNaN ha hb]
    · rw [orderKey_of_negative hsa, orderKey_of_negative hsb, Int.sub_lt_sub_left_iff,
        Int.ofNat_lt, unsigned_lt_iff_of_isNaN hb ha]

end Keys

instance (a b : UInt64) : Decidable (TotalLt a b) := decidable_of_iff _ totalLt_iff.symm

/-- All patterns are ordered, NaNs and both zeros among them. -/
instance : IsStrictTotalOrder UInt64 TotalLt where
  trichotomous a b hab hba := by
    rw [totalLt_iff] at hab hba
    exact orderKey_injective (le_antisymm (not_lt.mp hba) (not_lt.mp hab))
  irrefl a h := lt_irrefl _ (totalLt_iff.mp h)
  trans a b c hab hbc := totalLt_iff.mpr (lt_trans (totalLt_iff.mp hab) (totalLt_iff.mp hbc))

end Binary64

/-! ## The order of events -/

/-- Whether an instant comes before another one. -/
def Seconds.Before (a b : Seconds) : Prop := Binary64.TotalLt a.bits b.bits

theorem Seconds.before_iff {a b : Seconds} : a.Before b ↔ a.key < b.key := Binary64.totalLt_iff

namespace Event

variable (rank : EventType → Option Int)

/-- Whether `a` comes before `b`: at an earlier instant, or with a lower rank, or with a lower
    id. -/
def Before (a b : Event) : Prop :=
  a.time.Before b.time ∨ a.time = b.time ∧
    ∃ r s, rank a.type = some r ∧ rank b.type = some s ∧ (r < s ∨ r = s ∧ a.id < b.id)

/-- Events that instant, rank and id do not tell apart. -/
structure Tied (a b : Event) : Prop where
  time : a.time = b.time
  rank : rank a.type = rank b.type
  id : a.id = b.id

variable {rank} {a b : Event} (ha : (rank a.type).isSome = true) (hb : (rank b.type).isSome = true)
include ha hb

/-- Events come one before the other as their places do. -/
theorem before_iff : a.Before rank b ↔ a.place rank < b.place rank := by
  obtain ⟨r, hr⟩ := Option.isSome_iff_exists.mp ha
  obtain ⟨s, hs⟩ := Option.isSome_iff_exists.mp hb
  have htime : a.time = b.time ↔ a.time.key = b.time.key :=
    ⟨congrArg Seconds.key, Seconds.key_injective⟩
  unfold Before
  rw [place_lt_iff, Seconds.before_iff, htime]
  simp [hr, hs]

/-- Events are tied if they have the same place. -/
theorem tied_iff : a.Tied rank b ↔ a.place rank = b.place rank := by
  obtain ⟨r, hr⟩ := Option.isSome_iff_exists.mp ha
  obtain ⟨s, hs⟩ := Option.isSome_iff_exists.mp hb
  have hplace : a.place rank = b.place rank ↔ a.time.key = b.time.key ∧ r = s ∧ a.id = b.id := by
    simp [place, hr, hs]
  rw [hplace]
  constructor
  · rintro ⟨htime, hrank, hid⟩
    exact ⟨congrArg _ htime, by simpa [hr, hs] using hrank, hid⟩
  · rintro ⟨htime, rfl, hid⟩
    exact ⟨Seconds.key_injective htime, hr.trans hs.symm, hid⟩

end Event

/-! ## The order of a sweep -/

/-- Whether `order` lists the places of the events with a rank, each once, by instant, rank and id,
    and tied events as they are listed. -/
structure IsSweepOrder (rank : EventType → Option Int) (events : List Event) (order : List Nat) :
    Prop where
  nodup : order.Nodup
  mem : ∀ i, i ∈ order ↔ ∃ e, events[i]? = some e ∧ (rank e.type).isSome = true
  ordered : order.Pairwise fun i j => ∀ a b, events[i]? = some a → events[j]? = some b →
    a.Before rank b ∨ a.Tied rank b ∧ i < j

/-- The places of the events that a sweep visits. -/
def sweepIndices (rank : EventType → Option Int) (events : List Event) : List Nat :=
  (sweepOrder rank events).map Selected.index

section Sweep

variable {rank : EventType → Option Int} {events : List Event}

/-- The indices swept are those of the ranked events. -/
theorem mem_sweepIndices {i : Nat} : i ∈ sweepIndices rank events ↔
    ∃ e, events[i]? = some e ∧ (rank e.type).isSome = true := by
  constructor
  · intro hi
    obtain ⟨x, hx, rfl⟩ := List.mem_map.mp hi
    obtain ⟨hget, hrank⟩ := mem_sweepOrder hx
    exact ⟨x.event, hget, Option.isSome_iff_exists.mpr ⟨_, hrank⟩⟩
  · rintro ⟨e, he, hranked⟩
    obtain ⟨r, hr⟩ := Option.isSome_iff_exists.mp hranked
    have hselected := selected_of_ranked 0 he hr
    rw [Nat.zero_add] at hselected
    exact List.mem_map.mpr ⟨⟨i, e, r⟩, (stableSort_perm _ _).mem_iff.mpr hselected, rfl⟩

/-- A sweep visits places in such an order. -/
theorem isSweepOrder_sweepIndices (rank : EventType → Option Int) (events : List Event) :
    IsSweepOrder rank events (sweepIndices rank events) where
  nodup := nodup_index_sweepOrder rank events
  mem _ := mem_sweepIndices
  ordered := by
    refine List.pairwise_map.mpr ((sweepOrder_sorted rank events).imp_of_mem ?_)
    rintro x y hx hy ⟨hle, hbehind⟩ a b ha hb
    obtain ⟨hgetx, hrankx⟩ := mem_sweepOrder hx
    obtain ⟨hgety, hranky⟩ := mem_sweepOrder hy
    obtain rfl := Option.some.inj (hgetx.symm.trans ha)
    obtain rfl := Option.some.inj (hgety.symm.trans hb)
    have hranked := Option.isSome_of_eq_some hrankx
    have hranked' := Option.isSome_of_eq_some hranky
    rw [Event.before_iff hranked hranked', Event.tied_iff hranked hranked']
    rcases lt_or_eq_of_le hle with hlt | heq
    · exact .inl hlt
    · exact .inr ⟨heq, hbehind (le_of_eq heq.symm)⟩

/-- There is no other such order: of two places only one may come first. -/
theorem IsSweepOrder.eq {order : List Nat} (h : IsSweepOrder rank events order) :
    order = sweepIndices rank events := by
  have h' := isSweepOrder_sweepIndices rank events
  have hperm : order.Perm (sweepIndices rank events) :=
    (List.perm_ext_iff_of_nodup h.nodup h'.nodup).mpr fun i => (h.mem i).trans (h'.mem i).symm
  refine List.Perm.eq_of_pairwise ?_ h.ordered h'.ordered hperm
  intro i j hi hj hij hji
  obtain ⟨a, ha, hranked⟩ := (h.mem i).mp hi
  obtain ⟨b, hb, hranked'⟩ := (h'.mem j).mp hj
  have hij := hij a b ha hb
  have hji := hji b a hb ha
  rw [Event.before_iff hranked hranked', Event.tied_iff hranked hranked'] at hij
  rw [Event.before_iff hranked' hranked, Event.tied_iff hranked' hranked] at hji
  rcases hij with hlt | ⟨heq, hlt⟩ <;> rcases hji with hlt' | ⟨heq', hlt'⟩
  · exact absurd hlt' (lt_asymm hlt)
  · exact absurd heq' (ne_of_gt hlt)
  · exact absurd heq (ne_of_gt hlt')
  · exact absurd hlt' (Nat.lt_asymm hlt)

/-- With distinct ids, the events of a sweep are the only increasing arrangement. -/
theorem eq_queue_iff (hids : (events.map Event.id).Nodup) (es : List Event) :
    (∀ e, e ∈ es ↔ e ∈ events ∧ (rank e.type).isSome = true) ∧ es.Pairwise (Event.Before rank) ↔
      es = queue rank events := by
  constructor
  · rintro ⟨hmem, hbefore⟩
    have hstrict : es.Pairwise fun a b => a.place rank < b.place rank :=
      hbefore.imp_of_mem fun ha hb => (Event.before_iff ((hmem _).mp ha).2 ((hmem _).mp hb).2).mp
    refine eq_queue hids ?_ (hstrict.imp le_of_lt)
    refine (List.perm_ext_iff_of_nodup (hstrict.imp ?_) (hids.of_map.filter _)).mpr fun e => ?_
    · rintro a _ hlt rfl
      exact lt_irrefl _ hlt
    · rw [hmem, List.mem_filter]
  · rintro rfl
    refine ⟨fun e => mem_queue, (queue_strict hids).imp_of_mem fun ha hb => ?_⟩
    exact (Event.before_iff (mem_queue.mp ha).2 (mem_queue.mp hb).2).mpr

end Sweep

/-- For every list of events, whatever their instants, and every ranking of event types, a sweep
    visits the events with a rank, each once, by instant, then by rank, then by id, and tied events
    as they are listed; there is no other way to do so.  If ids are distinct, the events are visited
    in the only strictly increasing order; it is the same for every order of the list, and a part
    of the list is visited as it is within the whole. -/
theorem sweepOrder_canonical (rank : EventType → Option Int) (events : List Event) :
    (∀ order, IsSweepOrder rank events order ↔ order = sweepIndices rank events) ∧
    (sweepIndices rank events).map (events[·]?) = (queue rank events).map some ∧
    ((events.map Event.id).Nodup →
      (∀ es, (∀ e, e ∈ es ↔ e ∈ events ∧ (rank e.type).isSome = true) ∧
          es.Pairwise (Event.Before rank) ↔ es = queue rank events) ∧
      (∀ events', events'.Perm events → queue rank events' = queue rank events) ∧
      ∀ events', events'.Sublist events →
        queue rank events' = (queue rank events).filter (· ∈ events')) := by
  refine ⟨fun order => ⟨IsSweepOrder.eq, ?_⟩, ?_, fun hids => ⟨eq_queue_iff hids, ?_, ?_⟩⟩
  · rintro rfl
    exact isSweepOrder_sweepIndices rank events
  · unfold sweepIndices queue
    rw [List.map_map, List.map_map]
    exact List.map_congr_left fun x hx => (mem_sweepOrder hx).1
  · exact fun events' hperm => queue_perm_congr hids hperm
  · exact fun events' hsub => queue_sublist hids hsub

/-- Resets and pulses at NaNs, infinities and both zeros, some at the same instant; an end is among
    them, which has no rank. -/
def fringe : List Event :=
  [⟨5, ⟨0x7ff8000000000000⟩, .resetSoftwarePhase none⟩,
    ⟨0, .noValue, .pulseStart .play (.bare ⟨⟨0⟩⟩ none)⟩,
    ⟨7, .zero, .resetSoftwarePhase none⟩,
    ⟨2, .zero, .pulseStart .delay (.bare ⟨⟨0⟩⟩ none)⟩,
    ⟨6, ⟨(-0.0 : Float).toBits⟩, .pulseStart .play (.bare ⟨⟨1⟩⟩ none)⟩,
    ⟨4, .zero, .pulseEnd .delay ⟨⟨0⟩⟩ 2⟩,
    ⟨1, .zero, .resetSoftwarePhase none⟩,
    ⟨8, ⟨(1.0 / 0.0 : Float).toBits⟩, .pulseStart .acquire (.bare ⟨⟨0⟩⟩ none)⟩,
    ⟨9, ⟨0x7ff0000000000001⟩, .pulseStart .play (.bare ⟨⟨1⟩⟩ none)⟩,
    ⟨3, ⟨(-1.0 / 0.0 : Float).toBits⟩, .pulseStart .play (.bare ⟨⟨0⟩⟩ none)⟩]

/-- The order of these events, also when they are listed backwards, and of a part of them. -/
theorem fringe_canonical :
    (queue Phase.rank fringe).map Event.id = [0, 3, 6, 1, 7, 2, 8, 9, 5] ∧
    queue Phase.rank fringe.reverse = queue Phase.rank fringe ∧
    (queue Phase.rank (fringe.drop 3)).map Event.id = [3, 6, 1, 2, 8, 9] := by
  have hids : (fringe.map Event.id).Nodup := by decide
  obtain ⟨-, hperm, hsub⟩ := (sweepOrder_canonical Phase.rank fringe).2.2 hids
  refine ⟨by decide +kernel, hperm _ fringe.reverse_perm, ?_⟩
  rw [hsub _ (List.drop_sublist 3 fringe)]
  decide +kernel

/-- Events listed twice are tied with themselves, and keep the order of the list. -/
example : sweepIndices Phase.rank (fringe.take 2 ++ fringe.take 2) = [1, 3, 0, 2] := by
  decide +kernel

end PulseTimeline
