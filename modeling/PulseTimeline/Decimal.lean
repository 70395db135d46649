/-
  The shortest decimal of a double, written without an exponent.

  1. **Grid points that read back** — the reals that round to a double form an interval around it:
     up to half the gap to each neighbour, ends included exactly when the significand is even.
     `pointOn x p` is the multiple of `10 ^ p` nearest to `x` within that interval, if there is one;
     of two that are equally near it is the larger.

  2. **Program** — `shortest` walks the grids from coarse to fine and takes the first point found.
     A coarser grid means fewer digits, so no shorter decimal reads back to the same double.

  3. **Layout** — `positional` writes the digits around a point, and `render` adds the sign and the
     words for what is no number.
-/
import PulseTimeline.Binary64

namespace PulseTimeline

/-- The number `digits * 10 ^ exponent`. -/
structure Decimal where
  digits : Nat
  exponent : Int
deriving DecidableEq

namespace Decimal

/-! ## Grid points that read back -/

/-- The multiple of `10 ^ p` that reads back as `x` and is nearest to it, the larger of two.

    Everything is scaled to natural numbers: `quarter` is a quarter of the gap above `x`, `step` the
    step of the grid. -/
def pointOn (x : Binary64.Magnitude) (p : Int) : Option Nat :=
  let quarter := Nat.pow 2 x.exponent.toNat * Nat.pow 10 (-p).toNat
  let step := 4 * Nat.pow 2 (-x.exponent).toNat * Nat.pow 10 p.toNat
  let value := 4 * x.significand * quarter
  let below := value % step
  let above := step - below
  -- Half the gap on each side; below a power of two the gap is half as wide.
  let reachBelow := if x.narrowBelow then quarter else 2 * quarter
  let closed := x.significand % 2 = 0
  let hitBelow := below < reachBelow ∨ (closed ∧ below = reachBelow)
  let hitAbove := above < 2 * quarter ∨ (closed ∧ above = 2 * quarter)
  let floor := value / step
  if hitBelow then
    -- Both neighbours read back: the nearer one, and of two equally near ones the larger.
    if hitAbove ∧ above ≤ below then some (floor + 1) else some floor
  else if hitAbove then some (floor + 1)
  else none

/-- The first point found on `tries` grids, each ten times finer than the one before. -/
def firstPoint (x : Binary64.Magnitude) (p : Int) : Nat → Option Decimal
  | 0 => none
  | tries + 1 =>
      match pointOn x p with
      | some digits => some ⟨digits, p⟩
      | none => firstPoint x (p - 1) tries

/-- The exponent of a grid on which only zero and its first point can matter for a double. -/
def coarsest : Int := 309

/-- The shortest decimal that reads back as `x`, the nearest of those.

    Every double is a multiple of `10 ^ (-1074)`, so the walk ends on that grid at the latest. -/
def shortest (x : Binary64.Magnitude) : Decimal :=
  (firstPoint x coarsest 1384).getD ⟨x.significand * Nat.pow 5 (-x.exponent).toNat, x.exponent⟩

/-! ## Layout -/

/-- The digits of a decimal around a point: no exponent, and no point after a whole number. -/
def positional (d : Decimal) : String :=
  let ds := Nat.toDigits 10 d.digits
  match d.exponent with
  | .ofNat e => String.ofList (ds ++ List.replicate e '0')
  | .negSucc e =>
      let places := e + 1
      let padded := List.replicate (places + 1 - ds.length) '0' ++ ds
      let whole := padded.length - places
      String.ofList (padded.take whole ++ '.' :: padded.drop whole)

/-- The text of a double. -/
def render (x : Float) : String :=
  let bits := x.toBits
  if Binary64.isNaN bits then "NaN"
  else
    let sign := if Binary64.isNegative bits then "-" else ""
    if Binary64.isInfinite bits then sign ++ "inf"
    else if (Binary64.Magnitude.ofBits bits).significand = 0 then sign ++ "0"
    else sign ++ (shortest (Binary64.Magnitude.ofBits bits)).positional

example : render 0.1 = "0.1" := by decide +kernel
example : render (-1.5e-7) = "-0.00000015" := by decide +kernel
example : render 1e23 = "100000000000000000000000" := by decide +kernel
example : render 2.98023223876953125e-8 = "0.000000029802322387695313" := by decide +kernel
example : render (-0.0) = "-0" := by decide +kernel

end Decimal

end PulseTimeline
