/-
  The sites of a tree: the nodes that its lowering comes by.

  1. **Sites** — a `Site` is a node with its length, and whether it stands directly in a loop.
     `Node.sites` lists the sites of a tree in depth-first order.  What is asked of a tree in order
     to be lowered is asked of its sites, one by one.

  2. **Layout** — the outline treats every kind of node in its own equation, and the iterations of a
     loop apart from all other children.  `Node.layout` says the same in one equation: what a node
     of any kind adds (`NodeKind.items`) around what it holds.  Both are equal (`outline_eq`), and an
     induction over a tree has to look at a single node and at a list of children only.

  3. **Soundness** — the outline is free of faults if and only if every site is `WellPlaced`
     (`sound_layout`).

  4. **Size** — the outline of a tree has at most the events that its sites count for, and exactly
     these if it is free of faults (`size_layout`).
-/
import PulseTimeline.Proofs.Reached

namespace PulseTimeline

/-! ## Sites -/

namespace NodeKind

/-- Whether the node is a loop. -/
def isLoop : NodeKind → Bool
  | .loop .. => true
  | _ => false

/-- Whether the node is an iteration. -/
def isIteration : NodeKind → Bool
  | .iteration .. => true
  | _ => false

/-- Whether the end of the node is an event, so that its length must be known. -/
def lasts : NodeKind → Bool
  | .sect _ | .loop .. | .iteration .. | .play _ | .acquire .. | .delay .. | .setFrequency .. =>
      true
  | .root | .initialFrequency _ | .resetSoftwarePhase _ | .resetHardwarePhase _ => false

/-- The number of events that the node lowers to, what it holds left aside. -/
def eventCount : NodeKind → Nat
  | .root => 0
  | .sect _ | .loop .. | .iteration .. | .play _ | .acquire .. | .delay .. => 2
  | .setFrequency _ settings _ => 2 * settings.length
  | .initialFrequency settings => settings.length
  | .resetSoftwarePhase _ | .resetHardwarePhase _ => 1

end NodeKind

/-- A node that the lowering comes by. -/
structure Site where
  kind : NodeKind
  length : Option Int
  /-- Whether the node is a child of a loop. -/
  inLoop : Bool
deriving DecidableEq

mutual

/-- The sites of a tree: its root, and the sites of what the root holds, if its children belong to
    the tree that is walked. -/
def Node.sites (expand : Bool) : Node → Bool → List Site
  | ⟨kind, length, children⟩, inLoop =>
      ⟨kind, length, inLoop⟩ :: if kind.holds then childSites expand children kind.isLoop else []
termination_by structural n => n

/-- The sites of children: of all of them, or of the first one only, if they are the children of a
    loop and loops are not expanded. -/
def childSites (expand : Bool) : List (Int × Node) → Bool → List Site
  | [], _ => []
  | (_, child) :: children, inLoop =>
      child.sites expand inLoop ++
        if expand || !inLoop then childSites expand children inLoop else []
termination_by structural children => children

end

/-- The number of events that sites lower to. -/
def eventCountOf : List Site → Nat
  | [] => 0
  | s :: sites => s.kind.eventCount + eventCountOf sites

namespace Experiment

/-- The sites of the tree of an experiment, if it has one. -/
def sites (x : Experiment) (expand : Bool) : List Site :=
  match x.root with
  | some root => root.sites expand false
  | none => []

/-- The number of events that the tree of an experiment can lower to. -/
def eventCount (x : Experiment) (expand : Bool) : Nat := eventCountOf (x.sites expand)

end Experiment

/-! ## Layout -/

namespace NodeKind

/-- The section under which the events inside of the node are filed. -/
def ownerInside (kind : NodeKind) (owner : Option SectionUid) : Option SectionUid :=
  match kind with
  | .sect uid => some uid
  | .loop own _ => some own
  | _ => owner

/-- The items of a node that starts at `start`, around the items of what it holds. -/
def items (kind : NodeKind) (length : Option Int) (start : Int) (owner : Option SectionUid)
    (inside : List Item) : List Item :=
  match kind with
  | .root => inside
  | .sect uid => untilStop kind length start fun stop => [.span start stop (.sect uid) inside]
  | .loop own count =>
      untilStop kind length start fun stop => [.span start stop (.loop own count) inside]
  | .iteration own index parameters =>
      untilStop kind length start fun stop =>
        [.span start stop (.iteration own index parameters) inside]
  | .play pulse =>
      untilStop kind length start fun stop =>
        [.span start stop (.pulse .play (pulse.event owner)) []]
  | .acquire signal handle kernel =>
      untilStop kind length start fun stop =>
        [.span start stop (.pulse .acquire
          { PulseEvent.bare signal owner with pulse := kernel, handle := handle }) []]
  | .delay signal phaseIncrement phaseSet =>
      untilStop kind length start fun stop =>
        [.span start stop (.pulse .delay
          { PulseEvent.bare signal owner with phaseIncrement, phaseSet }) []]
  | .setFrequency own settings index =>
      untilStop kind length start fun stop =>
        settings.map fun setting =>
          .span start stop (.frequency (setting.event (some own) index)) []
  | .initialFrequency settings =>
      settings.map fun setting => .point start (.initialFrequency (setting.event owner 0))
  | .resetSoftwarePhase own => [.point start (.resetSoftwarePhase (own <|> owner))]
  | .resetHardwarePhase signals => [.point start (.resetHardwarePhase signals)]

/-- The items of a node where it stands: a fault if it is a child of a loop but no iteration, or
    the other way round. -/
def placed (kind : NodeKind) (inLoop : Bool) (start : Int) (items : List Item) : List Item :=
  match inLoop, kind.isIteration with
  | true, false => [.fault (.iterationExpected kind.name)]
  | false, true => [.fault (.strayIteration start)]
  | true, true => items
  | false, false => items

end NodeKind

mutual

/-- The outline of a node that starts at `start`, as a child of a loop or elsewhere. -/
def Node.layout (expand : Bool) : Node → Bool → Int → Option SectionUid → List Item
  | ⟨kind, length, children⟩, inLoop, start, owner =>
      kind.placed inLoop start (kind.items length start owner
        (childLayouts expand children kind.isLoop start (kind.ownerInside owner)))
termination_by structural n => n

/-- The outlines of children.  In a loop the walk goes on behind a child only if the child is an
    iteration and loops are expanded. -/
def childLayouts (expand : Bool) : List (Int × Node) → Bool → Int → Option SectionUid → List Item
  | [], _, _, _ => []
  | (offset, child) :: children, inLoop, start, owner =>
      child.layout expand inLoop (addTicks start offset) owner ++
        if !inLoop || expand && child.kind.isIteration then
          childLayouts expand children inLoop start owner
        else []
termination_by structural children => children

end

mutual

theorem Node.outline_eq (expand : Bool) : ∀ (n : Node) (start : Int) (owner : Option SectionUid),
    n.outline expand start owner = n.layout expand false start owner
  | ⟨.root, _, children⟩, start, owner => childOutlines_eq expand children start owner
  | ⟨.sect uid, _, children⟩, start, owner => by
      rw [Node.outline, childOutlines_eq expand children]
      rfl
  | ⟨.loop own count, _, children⟩, start, owner => by
      rw [Node.outline, iterationOutlines_eq expand own children]
      rfl
  | ⟨.iteration .., _, _⟩, start, owner => rfl
  | ⟨.play _, _, _⟩, start, owner => rfl
  | ⟨.acquire .., _, _⟩, start, owner => rfl
  | ⟨.delay .., _, _⟩, start, owner => rfl
  | ⟨.setFrequency .., _, _⟩, start, owner => rfl
  | ⟨.initialFrequency _, _, _⟩, start, owner => rfl
  | ⟨.resetSoftwarePhase _, _, _⟩, start, owner => rfl
  | ⟨.resetHardwarePhase _, _, _⟩, start, owner => rfl
termination_by structural n => n

theorem childOutlines_eq (expand : Bool) : ∀ (children : List (Int × Node)) (start : Int)
    (owner : Option SectionUid),
    childOutlines expand children start owner = childLayouts expand children false start owner
  | [], start, owner => rfl
  | (offset, child) :: children, start, owner => by
      rw [childOutlines, childLayouts, Node.outline_eq expand child,
        childOutlines_eq expand children]
      rfl
termination_by structural children => children

theorem iterationOutlines_eq (expand : Bool) (own : SectionUid) :
    ∀ (children : List (Int × Node)) (start : Int),
      iterationOutlines expand own children start =
        childLayouts expand children true start (some own)
  | [], start => rfl
  | (offset, ⟨.iteration uid index parameters, length, inner⟩) :: children, start => by
      rw [iterationOutlines, childLayouts, childOutlines_eq expand inner,
        iterationOutlines_eq expand own children]
      cases expand <;> rfl
  | (_, ⟨.root, _, _⟩) :: _, start => by cases expand <;> rfl
  | (_, ⟨.sect _, _, _⟩) :: _, start => by cases expand <;> rfl
  | (_, ⟨.loop .., _, _⟩) :: _, start => by cases expand <;> rfl
  | (_, ⟨.play _, _, _⟩) :: _, start => by cases expand <;> rfl
  | (_, ⟨.acquire .., _, _⟩) :: _, start => by cases expand <;> rfl
  | (_, ⟨.delay .., _, _⟩) :: _, start => by cases expand <;> rfl
  | (_, ⟨.setFrequency .., _, _⟩) :: _, start => by cases expand <;> rfl
  | (_, ⟨.initialFrequency _, _, _⟩) :: _, start => by cases expand <;> rfl
  | (_, ⟨.resetSoftwarePhase _, _, _⟩) :: _, start => by cases expand <;> rfl
  | (_, ⟨.resetHardwarePhase _, _, _⟩) :: _, start => by cases expand <;> rfl
termination_by structural children => children

end

/-! ## Soundness -/

/-- Whether a node stands where such a node may stand, and its end is known if it has one. -/
structure Site.WellPlaced (s : Site) : Prop where
  resolved : s.kind.lasts = true → s.length.isSome = true
  nested : s.inLoop = s.kind.isIteration

/-- A list of items is sound if each of them is. -/
theorem soundAll_iff {is : List Item} : SoundAll is ↔ ∀ i ∈ is, i.Sound := by
  induction is with
  | nil => simp [SoundAll]
  | cons i is ih => simp [SoundAll, ih]

/-- A node makes sound items if its length is known where it needs one and what it holds is sound.
    -/
theorem NodeKind.sound_items {kind : NodeKind} {length : Option Int} {start : Int}
    {owner : Option SectionUid} {inside : List Item} :
    SoundAll (kind.items length start owner inside) ↔
      (kind.lasts = true → length.isSome = true) ∧ (kind.holds = true → SoundAll inside) := by
  cases length <;> cases kind <;>
    simp [NodeKind.items, NodeKind.lasts, NodeKind.holds, untilStop, stopOf, soundAll_iff,
      Item.Sound]

/-- A node at its place makes its items. -/
theorem NodeKind.placed_of_nested {kind : NodeKind} {inLoop : Bool}
    (h : inLoop = kind.isIteration) (start : Int) (items : List Item) :
    kind.placed inLoop start items = items := by
  subst h
  unfold NodeKind.placed
  cases kind.isIteration <;> rfl

/-- An iteration outside a loop, or anything else in one, is a fault. -/
theorem NodeKind.placed_of_stray {kind : NodeKind} {inLoop : Bool}
    (h : inLoop ≠ kind.isIteration) (start : Int) (items : List Item) :
    ∃ error, kind.placed inLoop start items = [.fault error] := by
  unfold NodeKind.placed
  cases inLoop <;> cases hkind : kind.isIteration
  · exact absurd hkind.symm h
  · exact ⟨_, rfl⟩
  · exact ⟨_, rfl⟩
  · exact absurd hkind.symm h

theorem NodeKind.sound_placed {kind : NodeKind} {inLoop : Bool} {start : Int}
    {items : List Item} :
    SoundAll (kind.placed inLoop start items) ↔ inLoop = kind.isIteration ∧ SoundAll items := by
  by_cases h : inLoop = kind.isIteration
  · rw [kind.placed_of_nested h, and_iff_right h]
  · obtain ⟨error, herror⟩ := kind.placed_of_stray h start items
    rw [herror]
    exact iff_of_false (fun hsound => hsound.1) fun hboth => h hboth.1

/-- The root of a tree is the first of its sites. -/
theorem Node.root_mem_sites (expand : Bool) (n : Node) (inLoop : Bool) :
    ⟨n.kind, n.length, inLoop⟩ ∈ n.sites expand inLoop := by
  obtain ⟨kind, length, children⟩ := n
  rw [Node.sites]
  exact List.mem_cons_self

/-- Behind a child in its place, the walk goes on unless loops are not expanded. -/
theorem goesOn_of_wellPlaced {expand inLoop : Bool} {child : Node}
    (h : ∀ s ∈ child.sites expand inLoop, s.WellPlaced) :
    (!inLoop || expand && child.kind.isIteration) = (expand || !inLoop) := by
  have hnested : inLoop = child.kind.isIteration :=
    (h _ (child.root_mem_sites expand inLoop)).nested
  rw [← hnested]
  cases inLoop <;> cases expand <;> rfl

mutual

/-- The outline of a tree is free of faults if and only if every site is well placed. -/
theorem Node.sound_layout (expand : Bool) : ∀ (n : Node) (inLoop : Bool) (start : Int)
    (owner : Option SectionUid), SoundAll (n.layout expand inLoop start owner) ↔
      ∀ s ∈ n.sites expand inLoop, s.WellPlaced
  | ⟨kind, length, children⟩, inLoop, start, owner => by
      have hinside := sound_childLayouts expand children kind.isLoop start (kind.ownerInside owner)
      rw [Node.layout, NodeKind.sound_placed, NodeKind.sound_items, hinside, Node.sites,
        List.forall_mem_cons]
      constructor
      · rintro ⟨hnested, hresolved, hchildren⟩
        refine ⟨⟨hresolved, hnested⟩, ?_⟩
        split
        · rename_i hholds
          exact hchildren hholds
        · exact List.forall_mem_nil _
      · rintro ⟨⟨hresolved, hnested⟩, hchildren⟩
        refine ⟨hnested, hresolved, fun hholds => ?_⟩
        rwa [if_pos hholds] at hchildren
termination_by structural n => n

theorem sound_childLayouts (expand : Bool) : ∀ (children : List (Int × Node)) (inLoop : Bool)
    (start : Int) (owner : Option SectionUid),
    SoundAll (childLayouts expand children inLoop start owner) ↔
      ∀ s ∈ childSites expand children inLoop, s.WellPlaced
  | [], inLoop, start, owner => by
      rw [childLayouts, childSites]
      exact iff_of_true trivial (List.forall_mem_nil _)
  | (offset, child) :: children, inLoop, start, owner => by
      rw [childLayouts, childSites, soundAll_append, List.forall_mem_append,
        Node.sound_layout expand child]
      refine and_congr_right fun hchild => ?_
      -- The walk and the sites go on behind this child under the same condition, once it is known
      -- to be in its place.
      rw [goesOn_of_wellPlaced hchild]
      split
      · exact sound_childLayouts expand children inLoop start owner
      · exact iff_of_true trivial (List.forall_mem_nil _)
termination_by structural children => children

end

/-! ## Size -/

/-- The number of events of items. -/
def sizeAll (is : List Item) : Nat := startsAll is + othersAll is

theorem sizeAll_cons (i : Item) (is : List Item) :
    sizeAll (i :: is) = i.starts + i.others + sizeAll is := by
  show i.starts + startsAll is + (i.others + othersAll is) = _
  unfold sizeAll
  omega

/-- The events of joined lists add up. -/
theorem sizeAll_append (as bs : List Item) : sizeAll (as ++ bs) = sizeAll as + sizeAll bs := by
  induction as with
  | nil => exact (Nat.zero_add _).symm
  | cons a as ih =>
      rw [List.cons_append, sizeAll_cons, sizeAll_cons, ih]
      omega

theorem sizeAll_span (start stop : Int) (what : Lasting) (inside : List Item) :
    sizeAll [.span start stop what inside] = 2 + sizeAll inside := by
  show 1 + startsAll inside + 0 + (othersAll inside + 1 + 0) = _
  unfold sizeAll
  omega

/-- Items of the same size, one for each element of a list. -/
theorem sizeAll_map {α : Type} {item : α → Item} {size : Nat} (h : ∀ a, sizeAll [item a] = size)
    (as : List α) : sizeAll (as.map item) = size * as.length := by
  induction as with
  | nil => rfl
  | cons a as ih =>
      have hcons : (a :: as).map item = [item a] ++ as.map item := rfl
      rw [hcons, sizeAll_append, h, ih, List.length_cons, Nat.mul_succ, Nat.add_comm]

/-- A node whose end is known, if it has one, has all its events. -/
theorem NodeKind.size_items {kind : NodeKind} {length : Option Int}
    (h : kind.lasts = true → length.isSome = true) (start : Int) (owner : Option SectionUid)
    (inside : List Item) : sizeAll (kind.items length start owner inside) =
      kind.eventCount + if kind.holds then sizeAll inside else 0 := by
  cases kind with
  | root => exact (Nat.zero_add _).symm
  | setFrequency own settings index =>
      obtain ⟨stop, rfl⟩ := Option.isSome_iff_exists.mp (h rfl)
      exact sizeAll_map (fun setting => sizeAll_span _ _ _ []) settings
  | initialFrequency settings =>
      have hone : ∀ s : FrequencySetting,
          sizeAll [.point start (.initialFrequency (s.event owner 0))] = 1 := fun _ => rfl
      exact (sizeAll_map hone settings).trans (Nat.one_mul _)
  | resetSoftwarePhase _ => rfl
  | resetHardwarePhase _ => rfl
  | _ =>
      obtain ⟨stop, rfl⟩ := Option.isSome_iff_exists.mp (h rfl)
      exact sizeAll_span _ _ _ _

/-- A node that needs a length and has none is a fault. -/
theorem NodeKind.items_of_open {kind : NodeKind} (h : kind.lasts = true) (start : Int)
    (owner : Option SectionUid) (inside : List Item) :
    kind.items none start owner inside = [.fault (.unresolvedLength kind.name start)] := by
  cases kind <;> first | rfl | cases h

/-- A node makes at most its own events beside those of what it holds. -/
theorem NodeKind.size_items_le (kind : NodeKind) (length : Option Int) (start : Int)
    (owner : Option SectionUid) (inside : List Item) :
    sizeAll (kind.items length start owner inside) ≤
      kind.eventCount + if kind.holds then sizeAll inside else 0 := by
  by_cases h : kind.lasts = true → length.isSome = true
  · exact (kind.size_items h start owner inside).le
  · -- The end is needed but not known: there are no events.
    obtain ⟨hlasts, hopen⟩ := Classical.not_imp.mp h
    rw [Option.not_isSome_iff_eq_none.mp hopen, NodeKind.items_of_open hlasts]
    exact Nat.zero_le _

theorem eventCountOf_append (as bs : List Site) :
    eventCountOf (as ++ bs) = eventCountOf as + eventCountOf bs := by
  induction as with
  | nil => exact (Nat.zero_add _).symm
  | cons a as ih => rw [List.cons_append, eventCountOf, eventCountOf, ih, Nat.add_assoc]

mutual

/-- A tree lowers to no more events than its sites count for. -/
theorem Node.size_layout_le (expand : Bool) : ∀ (n : Node) (inLoop : Bool) (start : Int)
    (owner : Option SectionUid),
    sizeAll (n.layout expand inLoop start owner) ≤ eventCountOf (n.sites expand inLoop)
  | ⟨kind, length, children⟩, inLoop, start, owner => by
      have hinside := size_childLayouts_le expand children kind.isLoop start
        (kind.ownerInside owner)
      rw [Node.layout, Node.sites, eventCountOf]
      by_cases hnested : inLoop = kind.isIteration
      · rw [kind.placed_of_nested hnested]
        refine (kind.size_items_le length start owner _).trans (Nat.add_le_add_left ?_ _)
        split
        · exact hinside
        · exact Nat.zero_le _
      · obtain ⟨error, herror⟩ := kind.placed_of_stray hnested start (kind.items length start owner
          (childLayouts expand children kind.isLoop start (kind.ownerInside owner)))
        rw [herror]
        exact Nat.zero_le _
termination_by structural n => n

theorem size_childLayouts_le (expand : Bool) : ∀ (children : List (Int × Node)) (inLoop : Bool)
    (start : Int) (owner : Option SectionUid),
    sizeAll (childLayouts expand children inLoop start owner) ≤
      eventCountOf (childSites expand children inLoop)
  | [], inLoop, start, owner => Nat.zero_le _
  | (offset, child) :: children, inLoop, start, owner => by
      have hrest := size_childLayouts_le expand children inLoop start owner
      rw [childLayouts, childSites, sizeAll_append, eventCountOf_append]
      refine Nat.add_le_add
        (Node.size_layout_le expand child inLoop (addTicks start offset) owner) ?_
      -- If this child is out of place the walk may end here, where the sites go on.
      cases inLoop <;> cases expand <;> cases child.kind.isIteration <;>
        first | exact hrest | exact Nat.zero_le _
termination_by structural children => children

end

mutual

/-- A tree whose sites are well placed lowers to the events that they count for. -/
theorem Node.size_layout (expand : Bool) : ∀ (n : Node) (inLoop : Bool) (start : Int)
    (owner : Option SectionUid), (∀ s ∈ n.sites expand inLoop, s.WellPlaced) →
      sizeAll (n.layout expand inLoop start owner) = eventCountOf (n.sites expand inLoop)
  | ⟨kind, length, children⟩, inLoop, start, owner, h => by
      rw [Node.sites, List.forall_mem_cons] at h
      obtain ⟨⟨hresolved, hnested⟩, hchildren⟩ := h
      rw [Node.layout, Node.sites, eventCountOf, kind.placed_of_nested hnested,
        kind.size_items hresolved]
      split
      · rename_i hholds
        rw [if_pos hholds] at hchildren
        rw [size_childLayouts expand children kind.isLoop start _ hchildren]
      · rfl
termination_by structural n => n

theorem size_childLayouts (expand : Bool) : ∀ (children : List (Int × Node)) (inLoop : Bool)
    (start : Int) (owner : Option SectionUid),
    (∀ s ∈ childSites expand children inLoop, s.WellPlaced) →
      sizeAll (childLayouts expand children inLoop start owner) =
        eventCountOf (childSites expand children inLoop)
  | [], inLoop, start, owner, h => rfl
  | (offset, child) :: children, inLoop, start, owner, h => by
      rw [childSites, List.forall_mem_append] at h
      obtain ⟨hchild, hrest⟩ := h
      rw [childLayouts, childSites, sizeAll_append, eventCountOf_append,
        Node.size_layout expand child inLoop (addTicks start offset) owner hchild,
        goesOn_of_wellPlaced hchild]
      split
      · rename_i hgoes
        rw [if_pos hgoes] at hrest
        rw [size_childLayouts expand children inLoop start owner hrest]
      · rfl
termination_by structural children => children

end

/-! ## Experiments -/

namespace Experiment

variable (x : Experiment) (expand : Bool)

/-- The outline of an experiment is free of faults if and only if every site is well placed. -/
theorem sound_outline : SoundAll (x.outline expand) ↔ ∀ s ∈ x.sites expand, s.WellPlaced := by
  unfold outline sites
  cases x.root with
  | none => exact iff_of_true trivial (List.forall_mem_nil _)
  | some root =>
      show SoundAll (root.outline expand 0 none) ↔ _
      rw [root.outline_eq]
      exact root.sound_layout expand false 0 none

/-- An experiment lowers to no more events than its sites count for. -/
theorem size_outline_le : sizeAll (x.outline expand) ≤ x.eventCount expand := by
  unfold outline eventCount sites
  cases x.root with
  | none => exact Nat.zero_le _
  | some root =>
      show sizeAll (root.outline expand 0 none) ≤ _
      rw [root.outline_eq]
      exact root.size_layout_le expand false 0 none

/-- An experiment whose sites are well placed lowers to the events that they count for. -/
theorem size_outline (h : ∀ s ∈ x.sites expand, s.WellPlaced) :
    sizeAll (x.outline expand) = x.eventCount expand := by
  unfold outline eventCount sites at *
  cases hroot : x.root with
  | none => rfl
  | some root =>
      rw [hroot] at h
      show sizeAll (root.outline expand 0 none) = _
      rw [root.outline_eq]
      exact root.size_layout expand false 0 none h

end Experiment

end PulseTimeline
