/-
  Doubles by their bits.

  A finite double stands for `significand * 2 ^ exponent` with a sign.  `Magnitude.ofBits` reads
  these parts off the 64 bits, so that what has to be exact (rounding to an integer, the digits of
  a text) is computed on natural numbers.

  1. **Parts** — `isNegative`, `isNaN`, `isInfinite` and `Magnitude.ofBits`.

  2. **Order** — `orderKey` places all bit patterns on one line: negative NaNs, then the numbers
     from minus to plus infinity with minus zero just below plus zero, then positive NaNs.  Two
     patterns have the same key only if they are the same (`orderKey_injective`).

  3. **Rounding** — `Magnitude.roundHalfAway` is the nearest natural number, a half going up.
-/

namespace PulseTimeline.Binary64

/-! ## Parts -/

/-- The weight of the top bit, the sign. -/
def signWeight : Nat := 0x8000000000000000

/-- The weight of the lowest bit of the exponent field, below which lie 52 bits of fraction. -/
def exponentWeight : Nat := 0x0010000000000000

/-- Whether the sign bit is set; a NaN and a zero can have it too. -/
def isNegative (bits : UInt64) : Bool := signWeight ≤ bits.toNat

/-- The pattern without its sign bit. -/
def unsigned (bits : UInt64) : Nat := bits.toNat % signWeight

/-- The pattern of plus infinity; above it, signs aside, are the NaNs. -/
def infinity : Nat := 0x7ff * exponentWeight

/-- Whether the pattern is one of the NaNs. -/
def isNaN (bits : UInt64) : Bool := infinity < unsigned bits

/-- Whether the pattern is one of the two infinities. -/
def isInfinite (bits : UInt64) : Bool := unsigned bits == infinity

/-- A finite double without its sign: `significand * 2 ^ exponent`. -/
structure Magnitude where
  significand : Nat
  exponent : Int
  /-- The gap to the next smaller double is half the gap to the next larger one. -/
  narrowBelow : Bool
deriving DecidableEq

/-- The magnitude of a finite pattern.  Patterns with exponent field zero are the subnormals. -/
def Magnitude.ofBits (bits : UInt64) : Magnitude :=
  let field : Nat := unsigned bits / exponentWeight
  let fraction : Nat := unsigned bits % exponentWeight
  if field = 0 then ⟨fraction, -1074, false⟩
  else ⟨exponentWeight + fraction, (field : Int) - 1075, decide (fraction = 0 ∧ 1 < field)⟩

/-! ## Order -/

/-- The place of a pattern in the total order of doubles. -/
def orderKey (bits : UInt64) : Int :=
  if isNegative bits then -1 - (unsigned bits : Int) else unsigned bits

theorem orderKey_injective {a b : UInt64} (h : orderKey a = orderKey b) : a = b := by
  have ha := a.toNat_lt
  have hb := b.toNat_lt
  apply UInt64.toNat.inj
  simp only [orderKey, isNegative, unsigned, decide_eq_true_eq] at h
  split at h <;> split at h <;> simp only [signWeight] at * <;> omega

/-! ## Rounding -/

/-- The natural number nearest to a magnitude; a value midway between two goes up. -/
def Magnitude.roundHalfAway (x : Magnitude) : Nat :=
  match x.exponent with
  | .ofNat e => x.significand * Nat.pow 2 e
  | .negSucc e => (x.significand + Nat.pow 2 e) / Nat.pow 2 (e + 1)

example : (Magnitude.ofBits (2.5 : Float).toBits).roundHalfAway = 3 := by
  decide +kernel
example : (Magnitude.ofBits (0.49999999999999994 : Float).toBits).roundHalfAway = 0 := by
  decide +kernel
example : (Magnitude.ofBits (9007199254740993 : Float).toBits).roundHalfAway = 9007199254740992 := by
  decide +kernel

end PulseTimeline.Binary64
