/-
  Numbers in a JSON text.

  A whole number within 64 bits is kept as it is.  Anything else becomes a double in a fixed
  sequence of roundings: the leading digits that fit into 64 bits form the significand, the others
  only count as powers of ten, and the significand is then multiplied or divided by one power of
  ten, in steps of `10 ^ 308` if it is smaller than that.
-/
import PulseTimeline.Json.Lexical

namespace PulseTimeline.Json

/-- A number as read. -/
inductive Number
  | natural (n : Nat)
  /-- A negative whole number. -/
  | negative (n : Int)
  | real (x : Float)

/-- The number as a double. -/
def Number.toFloat : Number → Float
  | .natural n => Float.ofNat n
  | .negative n => Float.ofInt n
  | .real x => x

/-! ## The value of significand and exponent -/

/-- A power of ten as a double. -/
def powerOfTen (e : Nat) : Float := Float.ofScientific 1 false e

/-- Divide by `10 ^ e`, by at most `10 ^ 308` at a time, until nothing is left. -/
def scaleDown (f : Float) (e : Nat) : Float :=
  if e ≤ 308 then f / powerOfTen e
  else if f == 0.0 then f
  else scaleDown (f / powerOfTen 308) (e - 308)
termination_by e

/-- The double of `significand * 10 ^ exponent`; one too large for a double is refused. -/
def ofParts (negated : Bool) (significand : Nat) (exponent : Int) : Except JsonFault Float := do
  let f := Float.ofNat significand
  let magnitude ←
    match exponent with
    | .ofNat e =>
        if e ≤ 308 then
          let product := f * powerOfTen e
          if product.isInf then .error .malformed else .ok product
        else if significand = 0 then .ok f
        else .error .malformed
    | .negSucc e => .ok (scaleDown f (e + 1))
  pure (if negated then -magnitude else magnitude)

/-! ## Reading -/

/-- The value of a decimal digit. -/
def digitValue (c : Char) : Nat := c.toNat - '0'.toNat

/-- Take up digits into a significand as long as it stays within 64 bits: the significand, the
    number of digits taken, and the characters left. -/
def takeDigits : List Char → Nat → Nat → Nat × Nat × List Char
  | [], n, count => (n, count, [])
  | c :: cs, n, count =>
      if c.isDigit ∧ n * 10 + digitValue c < 0x10000000000000000 then
        takeDigits cs (n * 10 + digitValue c) (count + 1)
      else (n, count, c :: cs)

/-- Read an exponent behind its mark.  One beyond 31 bits makes zero of a number that is zero or
    gets smaller, and refuses any other. -/
def readExponent (negated : Bool) (significand : Nat) (exponent : Int) (cs : List Char) :
    Except JsonFault (Float × List Char) := do
  let (shrinks, cs) :=
    match cs with
    | '+' :: cs => (false, cs)
    | '-' :: cs => (true, cs)
    | cs => (false, cs)
  match cs with
  | [] => .error .incomplete
  | c :: _ =>
      if c.isDigit then
        let rest := cs.dropWhile Char.isDigit
        let e := (cs.takeWhile Char.isDigit).foldl (fun n c => n * 10 + digitValue c) 0
        if e < 0x80000000 then
          let x ← ofParts negated significand (if shrinks then exponent - e else exponent + e)
          pure (x, rest)
        else if significand ≠ 0 ∧ ¬ shrinks then .error .malformed
        else pure (if negated then -0.0 else 0.0, rest)
      else .error .malformed

/-- Finish a number whose digits are read: an exponent may follow. -/
def readTail (negated : Bool) (significand : Nat) (exponent : Int) (cs : List Char) :
    Except JsonFault (Float × List Char) := do
  match cs with
  | 'e' :: cs => readExponent negated significand exponent cs
  | 'E' :: cs => readExponent negated significand exponent cs
  | cs =>
      let x ← ofParts negated significand exponent
      pure (x, cs)

/-- Read the places behind a point; there must be one at least. -/
def readPlaces (negated : Bool) (significand : Nat) (exponent : Int) (cs : List Char) :
    Except JsonFault (Float × List Char) :=
  let (significand, count, rest) := takeDigits cs significand 0
  let left := rest.dropWhile Char.isDigit
  if count = 0 ∧ left.length = rest.length then
    .error (if rest.isEmpty then .incomplete else .malformed)
  else readTail negated significand (exponent - count) left

/-- Read what follows the whole part of a number; `dropped` of its digits did not fit. -/
def readRest (negated : Bool) (significand dropped : Nat) (cs : List Char) :
    Except JsonFault (Number × List Char) := do
  match cs with
  | '.' :: cs =>
      let (x, cs) ← readPlaces negated significand dropped cs
      pure (.real x, cs)
  | cs =>
      if dropped = 0 ∧ cs.head? ≠ some 'e' ∧ cs.head? ≠ some 'E' then
        if ¬ negated then pure (.natural significand, cs)
        -- Minus zero, and what lies below the least number of 64 bits, only exist as doubles.
        else if 0 < significand ∧ significand ≤ 0x8000000000000000 then pure (.negative (-significand), cs)
        else pure (.real (-Float.ofNat significand), cs)
      else
        let (x, cs) ← readTail negated significand dropped cs
        pure (.real x, cs)

/-- Read a number behind its sign.  A leading zero stands alone. -/
def readUnsigned (negated : Bool) (cs : List Char) : Except JsonFault (Number × List Char) :=
  match cs with
  | [] => .error .incomplete
  | '0' :: cs =>
      if cs.head?.any Char.isDigit then .error .malformed else readRest negated 0 0 cs
  | c :: cs =>
      if c.isDigit then
        let (significand, _, rest) := takeDigits cs (digitValue c) 0
        let left := rest.dropWhile Char.isDigit
        readRest negated significand (rest.length - left.length) left
      else .error .malformed

/-- The fault of a value that is not of the type asked for: what is wrong with it as JSON, if
    anything is. -/
def faultOf {α : Type} : Except JsonFault α → JsonFault
  | .error fault => fault
  | .ok _ => .unexpected

/-- The fault of a value that begins here and is not of the type asked for. -/
def misfit (cs : List Char) : JsonFault :=
  match cs with
  | [] => .incomplete
  | '[' :: _ => .unexpected
  | '\x7b' :: _ => .unexpected
  | 'n' :: cs => faultOf (readWord ['u', 'l', 'l'] cs)
  | 't' :: cs => faultOf (readWord ['r', 'u', 'e'] cs)
  | 'f' :: cs => faultOf (readWord ['a', 'l', 's', 'e'] cs)
  | '"' :: cs => faultOf (readString cs [])
  | '-' :: cs => faultOf (readUnsigned true cs)
  | c :: cs => if c.isDigit then faultOf (readUnsigned false (c :: cs)) else .malformed

/-- Read a number; the blanks before it are skipped. -/
def readNumber (cs : List Char) : Except JsonFault (Number × List Char) :=
  match skipBlanks cs with
  | [] => .error .incomplete
  | '-' :: cs => readUnsigned true cs
  | c :: cs => if c.isDigit then readUnsigned false (c :: cs) else .error (misfit (c :: cs))

/-- Read a double. -/
def readFloat (cs : List Char) : Except JsonFault (Float × List Char) := do
  let (n, cs) ← readNumber cs
  pure (n.toFloat, cs)

/-- Read a natural number. -/
def readNatural (cs : List Char) : Except JsonFault (Nat × List Char) := do
  let (n, cs) ← readNumber cs
  match n with
  | .natural n => pure (n, cs)
  | _ => throw .unexpected

/-- Read a truth value. -/
def readBool (cs : List Char) : Except JsonFault (Bool × List Char) := do
  match skipBlanks cs with
  | 't' :: cs =>
      let cs ← readWord ['r', 'u', 'e'] cs
      pure (true, cs)
  | 'f' :: cs =>
      let cs ← readWord ['a', 'l', 's', 'e'] cs
      pure (false, cs)
  | cs => throw (misfit cs)

end PulseTimeline.Json
