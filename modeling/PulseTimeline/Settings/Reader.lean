/-
  Reading settings from a JSON text.

  Settings are written as an object with some of the keys `TINYSAMPLE`, `MAX_EVENTS_TO_PUBLISH` and
  `EXPAND_LOOPS_FOR_SCHEDULE`, each at most once and no others, or as an array of the three values
  in this order, or of the first few of them.  What is not said has its standard value.
-/
import PulseTimeline.Json.Number
import PulseTimeline.Settings

namespace PulseTimeline.Settings

open Json

/-- The keys of the settings. -/
inductive Key
  | tick
  | maxEvents
  | expandLoops
deriving DecidableEq

namespace Key

/-- The written form of a key. -/
def text : Key → String
  | .tick => "TINYSAMPLE"
  | .maxEvents => "MAX_EVENTS_TO_PUBLISH"
  | .expandLoops => "EXPAND_LOOPS_FOR_SCHEDULE"

/-- All keys, in the order of the array form. -/
def all : List Key := [.tick, .maxEvents, .expandLoops]

/-- Read the value of a key into the settings. -/
def readValue (key : Key) (s : Settings) (cs : List Char) :
    Except JsonFault (Settings × List Char) := do
  match key with
  | .tick =>
      let (x, cs) ← readFloat cs
      pure ({ s with tick := x }, cs)
  | .maxEvents =>
      let (n, cs) ← readNatural cs
      pure ({ s with maxEvents := n }, cs)
  | .expandLoops =>
      let (b, cs) ← readBool cs
      pure ({ s with expandLoops := b }, cs)

end Key

/-! ## The object form -/

/-- Find the opening quote of the next key, or the end of the object.  A comma stands before every
    key but the first. -/
def nextKey (isFirst : Bool) (cs : List Char) : Except JsonFault (Option (List Char)) :=
  match isFirst, skipBlanks cs with
  | _, [] => .error .incomplete
  | _, '\x7d' :: _ => .ok none
  | true, '"' :: cs => .ok (some cs)
  | false, ',' :: cs =>
      match skipBlanks cs with
      | [] => .error .incomplete
      | '"' :: cs => .ok (some cs)
      | _ => .error .malformed
  | _, _ => .error .malformed

/-- Skip the colon behind a key. -/
def skipColon (cs : List Char) : Except JsonFault (List Char) :=
  match skipBlanks cs with
  | [] => .error .incomplete
  | ':' :: cs => .ok cs
  | _ => .error .malformed

/-- Read the members of an object up to its end.  A key must be one of those that are `left`. -/
def readMembers (isFirst : Bool) (left : List Key) (s : Settings) (cs : List Char) :
    Except JsonFault (Settings × List Char) := do
  match ← nextKey isFirst cs with
  | none => pure (s, (skipBlanks cs).drop 1)
  | some cs =>
      let (name, cs) ← readString cs []
      match h : left.find? fun k => k.text = String.ofList name with
      | none => throw .unexpected
      | some key =>
          let cs ← skipColon cs
          let (s, cs) ← key.readValue s cs
          -- Each key is taken off the list, so the members come to an end.
          have := List.length_erase_of_mem (List.mem_of_find?_eq_some h)
          have := List.length_pos_of_mem (List.mem_of_find?_eq_some h)
          readMembers false (left.erase key) s cs
termination_by left.length

/-! ## The array form -/

/-- Find the next element, or the end of the array.  A comma stands before every element but the
    first. -/
def nextElement (isFirst : Bool) (cs : List Char) : Except JsonFault (Option (List Char)) :=
  match isFirst, skipBlanks cs with
  | _, [] => .error .incomplete
  | _, ']' :: _ => .ok none
  | true, cs => .ok (some cs)
  | false, ',' :: cs =>
      match skipBlanks cs with
      | [] => .error .incomplete
      | ']' :: _ => .error .malformed
      | cs => .ok (some cs)
  | false, _ => .error .malformed

/-- Read the elements of an array up to its end, one for each key as far as they go. -/
def readElements (isFirst : Bool) (left : List Key) (s : Settings) (cs : List Char) :
    Except JsonFault (Settings × List Char) := do
  match left with
  | [] =>
      match skipBlanks cs with
      | [] => throw .incomplete
      | ']' :: cs => pure (s, cs)
      | _ => throw .malformed
  | key :: left =>
      match ← nextElement isFirst cs with
      | none => pure (s, (skipBlanks cs).drop 1)
      | some cs =>
          let (s, cs) ← key.readValue s cs
          readElements false left s cs

/-! ## The whole text -/

/-- Read settings in either form, and nothing behind them. -/
def read (cs : List Char) : Except JsonFault Settings := do
  let (s, rest) ←
    match skipBlanks cs with
    | '[' :: cs => readElements true Key.all standard cs
    | '\x7b' :: cs => readMembers true Key.all standard cs
    | cs => throw (misfit cs)
  if (skipBlanks rest).isEmpty then pure s else throw .malformed

/-- The valid settings that a JSON text describes. -/
def ofJson (text : String) : Except SettingsError Settings :=
  match read text.toList with
  | .error fault => .error (.unreadable fault)
  | .ok s => do
      s.validate
      pure s

end PulseTimeline.Settings
