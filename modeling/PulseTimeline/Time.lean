/-
  Time in ticks and in seconds.

  Schedules are computed in whole ticks, integers of 64 bits; a sum of ticks that does not fit
  wraps around (`addTicks`).  Seconds appear twice: when a duration given in seconds is turned into
  ticks (`ticksOfSeconds`), and when the finished timeline is stamped (`Seconds.ofTicks`, one
  multiplication per event).

  An instant in seconds is kept as the bits of a double.  Instants are compared by
  `Binary64.orderKey`, which is a total order on all patterns, so that a timeline can be sorted
  whatever its instants are.
-/
import PulseTimeline.Binary64

namespace PulseTimeline

/-! ## Ticks -/

/-- The length of one tick in seconds, the smallest time unit in use.  A sample at 2 GS/s takes
    1800 ticks. -/
def tickDuration : Float := 1.0 / 3600000e6

/-- The least number of ticks, that of 64 bits. -/
def minTick : Int := -0x8000000000000000

/-- The greatest number of ticks, that of 64 bits. -/
def maxTick : Int := 0x7fffffffffffffff

/-- Whether 64 bits hold a number of ticks. -/
def IsTick (n : Int) : Prop := minTick ≤ n ∧ n ≤ maxTick

instance : DecidablePred IsTick := fun n => inferInstanceAs (Decidable (minTick ≤ n ∧ n ≤ maxTick))

/-- The sum of ticks, in 64 bits: beyond their range it wraps around. -/
def addTicks (a b : Int) : Int := (a + b).bmod 0x10000000000000000

/-- What 64 bits hold does not wrap around. -/
theorem bmod_of_isTick {n : Int} (h : IsTick n) : n.bmod 0x10000000000000000 = n :=
  Int.bmod_eq_of_le h.1 (Int.lt_of_le_of_lt h.2 (by decide))

theorem addTicks_of_isTick {a b : Int} (h : IsTick (a + b)) : addTicks a b = a + b :=
  bmod_of_isTick h

/-- A sum of ticks is held by 64 bits, whether or not it has wrapped around. -/
theorem isTick_addTicks (a b : Int) : IsTick (addTicks a b) :=
  ⟨Int.le_bmod (by decide), Int.le_of_lt_add_one (Int.bmod_lt (by decide))⟩

/-- A sum that has wrapped around may be added to: only the sum of all terms counts, and the sums on
    the way to it may have left the range and come back. -/
theorem addTicks_bmod (a b : Int) :
    addTicks (a.bmod 0x10000000000000000) b = (a + b).bmod 0x10000000000000000 :=
  Int.bmod_add_bmod

example : addTicks maxTick 1 = minTick := by decide

/-- The whole number nearest to a double, halves away from zero, within the range of ticks; a NaN
    counts as zero. -/
def nearestTick (x : Float) : Int :=
  let bits := x.toBits
  if Binary64.isNaN bits then 0
  else if Binary64.isInfinite bits then
    if Binary64.isNegative bits then minTick else maxTick
  else
    let n := (Binary64.Magnitude.ofBits bits).roundHalfAway
    if Binary64.isNegative bits then max minTick (-n) else min maxTick n

/-- Rounding stops at the ends of the range, so that 64 bits hold every result. -/
theorem isTick_nearestTick (x : Float) : IsTick (nearestTick x) := by
  have hends : minTick ≤ 0 ∧ 0 ≤ maxTick := by decide
  unfold nearestTick IsTick
  dsimp only
  split
  · exact hends
  · split
    · split <;> omega
    · split <;> omega

/-- A duration in seconds as a number of ticks. -/
def ticksOfSeconds (seconds : Float) : Int := nearestTick (seconds / tickDuration)

example : ticksOfSeconds 1e-6 = 3600000 := by decide +kernel
example : ticksOfSeconds 0.5e-9 = 1800 := by decide +kernel
example : ticksOfSeconds (-1e30) = minTick := by decide +kernel

/-! ## Seconds -/

/-- An instant in seconds, as the bits of a double. -/
structure Seconds where
  bits : UInt64
deriving DecidableEq

namespace Seconds

/-- The instant as a number. -/
def toFloat (t : Seconds) : Float := Float.ofBits t.bits

/-- The pattern of a product without a value: the NaN whose sign bit is set. -/
def noValue : Seconds := ⟨0xfff8000000000000⟩

/-- The instant of a whole number of ticks: a single multiplication. -/
def ofTicks (tick : Float) (n : Int) : Seconds :=
  let product := Float.ofInt n * tick
  if product.isNaN then noValue else ⟨product.toBits⟩

/-- The place of an instant in the total order. -/
def key (t : Seconds) : Int := Binary64.orderKey t.bits

theorem key_injective {a b : Seconds} (h : a.key = b.key) : a = b := by
  obtain ⟨x⟩ := a
  obtain ⟨y⟩ := b
  exact congrArg Seconds.mk (Binary64.orderKey_injective h)

end Seconds

end PulseTimeline
