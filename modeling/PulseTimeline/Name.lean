/-
  Names of an experiment and the identities that stand for them.

  Signals, devices, oscillators, sections, pulses, sweep parameters and result handles are all
  called by name.  A `NameStore` hands out one `NameId` per name, in order of first use; all
  comparisons are comparisons of ids, and a name comes back only for a message or a listing.

  1. **Identities** — `NameId` is a place in a store.  `Uid n` is an id together with the kind of
     thing it names, so that a signal cannot be passed for a device.

  2. **Store** — `intern` returns the id of a name, adding the name when it is new.  The stored
     names are distinct (`NameStore.nodup`), hence `resolve?_intern` (the id leads back to the
     name), `find?_intern` (the name leads to the id) and `resolve?_intern_of_resolve?` (ids handed
     out earlier keep their meaning).
-/

namespace PulseTimeline

/-! ## Identities -/

/-- Identity of an interned name: its place in the store that holds it. -/
structure NameId where
  index : Nat
deriving DecidableEq

/-- The form in which an id without a known name is shown.  Places are counted from one. -/
def NameId.describe (id : NameId) : String :=
  "NamedId \x7b uid: SymbolU32 \x7b value: " ++ toString (id.index + 1) ++ " \x7d \x7d"

/-- What a name can stand for. -/
inductive Noun
  | signal
  | device
  | oscillator
  | sect
  | pulse
  | parameter
  | handle
deriving DecidableEq

/-- The label under which an id of this noun is shown. -/
def Noun.label : Noun → String
  | .signal => "SignalUid"
  | .device => "DeviceUid"
  | .oscillator => "OscillatorUid"
  | .sect => "SectionUid"
  | .pulse => "PulseUid"
  | .parameter => "ParameterUid"
  | .handle => "HandleUid"

/-- Identity of a thing of the given noun. -/
structure Uid (noun : Noun) where
  id : NameId
deriving DecidableEq

/-- Membership of an identity in a list is decided in the same way everywhere. -/
instance instLawfulBEqUid (noun : Noun) : LawfulBEq (Uid noun) := inferInstance

/-- A logical signal line. -/
abbrev SignalUid := Uid .signal

/-- An instrument. -/
abbrev DeviceUid := Uid .device

/-- An oscillator, in hardware or emulated in software. -/
abbrev OscillatorUid := Uid .oscillator

/-- A section of the experiment. -/
abbrev SectionUid := Uid .sect

/-- A pulse shape or an integration kernel. -/
abbrev PulseUid := Uid .pulse

/-- A sweep parameter. -/
abbrev ParameterUid := Uid .parameter

/-- The handle under which the results of an acquisition are stored. -/
abbrev HandleUid := Uid .handle

/-- The form in which a typed id is shown: its label around the bare id. -/
def Uid.describe {noun : Noun} (uid : Uid noun) : String :=
  noun.label ++ "(" ++ uid.id.describe ++ ")"

/-! ## The store -/

/-- The interned names, oldest first; no name occurs twice. -/
structure NameStore where
  names : List String
  nodup : names.Nodup

namespace NameStore

/-- The store without names. -/
def empty : NameStore := ⟨[], List.nodup_nil⟩

/-- The id of a name that was interned before. -/
def find? (s : NameStore) (name : String) : Option NameId :=
  (s.names.findIdx? (· == name)).map NameId.mk

theorem not_mem_of_find?_eq_none {s : NameStore} {name : String} (h : s.find? name = none) :
    name ∉ s.names := by
  simp only [find?, Option.map_eq_none_iff, List.findIdx?_eq_none_iff] at h
  intro hm
  simpa using h name hm

/-- The store with a new name at its end. -/
def append (s : NameStore) (name : String) (h : name ∉ s.names) : NameStore :=
  ⟨s.names ++ [name], by
    rw [List.nodup_append]
    refine ⟨s.nodup, by simp, fun a ha b hb => ?_⟩
    rw [List.mem_singleton] at hb
    subst hb
    exact fun hab => h (hab ▸ ha)⟩

/-- The id of a name, interning the name if it is new. -/
def intern (s : NameStore) (name : String) : NameId × NameStore :=
  match h : s.find? name with
  | some id => (id, s)
  | none => (⟨s.names.length⟩, s.append name (not_mem_of_find?_eq_none h))

/-- The name behind an id; an id of another store may have none here. -/
def resolve? (s : NameStore) (id : NameId) : Option String := s.names[id.index]?

/-- The name of an id for use in messages: an id without a name is described instead. -/
def display (s : NameStore) (id : NameId) : String := (s.resolve? id).getD id.describe

/-- The number of interned names. -/
def size (s : NameStore) : Nat := s.names.length

/-- Whether no name has been interned. -/
def isEmpty (s : NameStore) : Bool := s.names.isEmpty

/-- The form in which a store is shown: the number of its names. -/
def describe (s : NameStore) : String :=
  "NamedIdStore \x7b len: " ++ toString s.size ++ " \x7d"

/-! ## Names and ids lead to each other -/

theorem resolve?_of_find? {s : NameStore} {name : String} {id : NameId}
    (h : s.find? name = some id) : s.resolve? id = some name := by
  simp only [find?, Option.map_eq_some_iff] at h
  obtain ⟨i, hi, rfl⟩ := h
  rw [List.findIdx?_eq_some_iff_getElem] at hi
  obtain ⟨hlt, hn, -⟩ := hi
  simp only [resolve?, List.getElem?_eq_getElem hlt]
  simpa using hn

/-- Interning a name and resolving its id gives the name back. -/
theorem resolve?_intern (s : NameStore) (name : String) :
    (s.intern name).2.resolve? (s.intern name).1 = some name := by
  unfold intern
  split
  · rename_i id h
    exact resolve?_of_find? h
  · simp [resolve?, append]

/-- Ids handed out earlier keep their names. -/
theorem resolve?_intern_of_resolve? {s : NameStore} {id : NameId} {old : String} (name : String)
    (h : s.resolve? id = some old) : (s.intern name).2.resolve? id = some old := by
  unfold intern
  split
  · exact h
  · simp only [resolve?, append] at h ⊢
    exact List.getElem?_append_left (List.getElem?_eq_some_iff.mp h).1 ▸ h

/-- Ids with the same name are equal. -/
theorem eq_of_resolve? {s : NameStore} {a b : NameId} {name : String}
    (ha : s.resolve? a = some name) (hb : s.resolve? b = some name) : a = b := by
  obtain ⟨i⟩ := a
  obtain ⟨j⟩ := b
  simp only [resolve?] at ha hb
  have hi := (List.getElem?_eq_some_iff.mp ha).1
  exact congrArg NameId.mk ((List.getElem?_inj hi s.nodup).mp (ha.trans hb.symm))

/-- After interning a name, the name is found with the id that interning returned. -/
theorem find?_intern (s : NameStore) (name : String) :
    (s.intern name).2.find? name = some (s.intern name).1 := by
  have hr := resolve?_intern s name
  cases hf : (s.intern name).2.find? name with
  | none => exact absurd (List.mem_of_getElem? hr) (not_mem_of_find?_eq_none hf)
  | some id => exact congrArg some (eq_of_resolve? (resolve?_of_find? hf) hr)

end NameStore

end PulseTimeline
