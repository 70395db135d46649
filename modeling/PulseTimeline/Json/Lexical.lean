/-
  The lexical part of a JSON reader: blanks, words, strings, and the fault of a misplaced value.

  A reader takes the characters that are left and gives back what it has read and the characters
  that are left then.  What is wrong with a text falls into three classes (`JsonFault`): it ends too
  early, it is no JSON, or it is JSON of another shape than is asked for.
-/

namespace PulseTimeline

/-- What can be wrong with a JSON text. -/
inductive JsonFault
  /-- The text ends too early. -/
  | incomplete
  /-- The text is no JSON. -/
  | malformed
  /-- A value has the wrong type, or a key is unknown or repeated. -/
  | unexpected
deriving DecidableEq

/-- What is wrong with a text, in words. -/
def JsonFault.text : JsonFault → String
  | .incomplete => "the text ends too early"
  | .malformed => "the text is no JSON"
  | .unexpected => "a key or a value is not as expected"

namespace Json

/-- Blanks between tokens. -/
def isBlank (c : Char) : Bool := c = ' ' || c = '\n' || c = '\t' || c = '\r'

/-- The characters from the first that is no blank. -/
def skipBlanks (cs : List Char) : List Char := cs.dropWhile isBlank

/-- Read exactly the characters of a word. -/
def readWord : List Char → List Char → Except JsonFault (List Char)
  | [], cs => .ok cs
  | _ :: _, [] => .error .incomplete
  | w :: word, c :: cs => if c = w then readWord word cs else .error .malformed

/-! ## Strings -/

/-- The value of a hexadecimal digit. -/
def hexDigit? (c : Char) : Option Nat :=
  if c.isDigit then some (c.toNat - '0'.toNat)
  else if 'a' ≤ c ∧ c ≤ 'f' then some (c.toNat - 'a'.toNat + 10)
  else if 'A' ≤ c ∧ c ≤ 'F' then some (c.toNat - 'A'.toNat + 10)
  else none

/-- The number of bytes of a text in UTF-8. -/
def byteCount (cs : List Char) : Nat := cs.foldl (fun n c => n + c.utf8Size) 0

/-- Read four hexadecimal digits.  They are four bytes, so the text is incomplete if fewer bytes are
    left, and malformed if other characters stand there. -/
def readUnit (cs : List Char) : Except JsonFault Nat :=
  match (cs.take 4).mapM hexDigit? with
  | some [a, b, c, d] => .ok (((a * 16 + b) * 16 + c) * 16 + d)
  | _ => .error (if byteCount cs < 4 then .incomplete else .malformed)

/-- Read the second half of a surrogate pair, given the first. -/
def readTrail (lead : Nat) : List Char → Except JsonFault Char
  | [] => .error .incomplete
  | '\\' :: [] => .error .incomplete
  | '\\' :: 'u' :: cs => do
      let trail ← readUnit cs
      if 0xdc00 ≤ trail ∧ trail ≤ 0xdfff then
        .ok (Char.ofNat ((lead - 0xd800) * 0x400 + (trail - 0xdc00) + 0x10000))
      else .error .malformed
  | _ => .error .malformed

/-- Read what follows a backslash: the character that it stands for, and how many characters were
    taken.  Surrogates must come in pairs. -/
def readEscape : List Char → Except JsonFault (Char × Nat)
  | [] => .error .incomplete
  | '"' :: _ => .ok ('"', 1)
  | '\\' :: _ => .ok ('\\', 1)
  | '/' :: _ => .ok ('/', 1)
  | 'b' :: _ => .ok ('\x08', 1)
  | 'f' :: _ => .ok ('\x0c', 1)
  | 'n' :: _ => .ok ('\n', 1)
  | 'r' :: _ => .ok ('\r', 1)
  | 't' :: _ => .ok ('\t', 1)
  | 'u' :: cs => do
      let unit ← readUnit cs
      -- A code unit outside the surrogate range is a character by itself.
      if unit < 0xd800 ∨ 0xdfff < unit then .ok (Char.ofNat unit, 5)
      else if 0xdc00 ≤ unit then .error .malformed
      else
        let c ← readTrail unit (cs.drop 4)
        .ok (c, 11)
  | _ => .error .malformed

/-- Read a string behind its opening quote; `taken` holds its characters so far, the last first. -/
def readString (cs taken : List Char) : Except JsonFault (List Char × List Char) :=
  match cs with
  | [] => .error .incomplete
  | '"' :: rest => .ok (taken.reverse, rest)
  | '\\' :: rest => do
      let (c, n) ← readEscape rest
      readString (rest.drop n) (c :: taken)
  | c :: rest => if c.toNat < 0x20 then .error .malformed else readString rest (c :: taken)
termination_by cs.length
decreasing_by
  · simp only [List.length_cons, List.length_drop]
    omega
  · simp only [List.length_cons]
    omega

end Json

end PulseTimeline
