import BehaviorTree.Number.Binary

/-!
# Shortest decimals

Every number of a binary format is nearest to a whole interval of reals.  Its shortest decimal has
the fewest digits among those in that interval; of two with equally many digits it is the nearer,
and a layout says where an exact tie goes.

Only the two neighbours of the number on each decimal grid have to be tried: if any point of the
grid lies in the interval, then so does one of them.
-/

namespace BehaviorTree.Number

/-- The number `digits * 10 ^ exponent`. -/
structure Decimal where
  digits : Nat
  exponent : Int
deriving DecidableEq, Repr

/-- Where an exact tie between two shortest decimals goes. -/
inductive TieRule where
  | toEven
  | upwards
deriving DecidableEq, Repr

/-- How many decimal digits a natural number has; zero has one. -/
def digitCount (value : Nat) : Nat :=
  (Nat.toDigits 10 value).length

namespace Decimal

/-- The exponent of the first decimal digit of a positive fraction. -/
def leadingPosition (numerator denominator : Nat) : Int :=
  if denominator ≤ numerator then
    (digitCount (numerator / denominator) : Int) - 1
  else
    -(digitCount ((denominator - 1) / numerator) : Int)

/-- The same number without trailing zeros, by dividing at most `fuel` of them away. -/
def trimmed : Nat → Decimal → Decimal
  | 0, decimal => decimal
  | fuel + 1, decimal =>
      if decimal.digits ≠ 0 ∧ decimal.digits % 10 = 0 then
        trimmed fuel ⟨decimal.digits / 10, decimal.exponent + 1⟩
      else decimal

/-- The exponent of the first digit. -/
def firstPosition (decimal : Decimal) : Int :=
  decimal.exponent + (digitCount decimal.digits : Int) - 1

end Decimal

/-- The reals that round to one number, in quarters of its last bit. -/
structure Interval where
  lower : Nat
  middle : Nat
  upper : Nat
  /-- Exponent of the unit in which the three points are counted. -/
  exponent : Int
  /-- Whether the ends belong to the interval. -/
  closed : Bool

namespace Interval

/-- The interval around a place above zero.  Below a power of two the next number is only half as
far away as above it. -/
def around (format : Format) (place : Nat) : Interval :=
  let (significand, exponent) := format.magnitude place
  let narrow := significand = format.binade ∧ exponent ≠ format.minExponent
  { lower := 4 * significand - if narrow then 1 else 2
    middle := 4 * significand
    upper := 4 * significand + 2
    exponent := exponent - 2
    closed := significand % 2 = 0 }

/-- Factors that turn a multiple of `10 ^ position` and a multiple of the interval's unit into
multiples of one common unit. -/
def scales (interval : Interval) (position : Int) : Nat × Nat :=
  (tenTo position.toNat * twoTo (-interval.exponent).toNat,
    tenTo (-position).toNat * twoTo interval.exponent.toNat)

/-- Whether `digits * 10 ^ position` lies in the interval. -/
def contains (interval : Interval) (position : Int) (digits : Nat) : Bool :=
  let (gridScale, unitScale) := interval.scales position
  let point := digits * gridScale
  let lower := interval.lower * unitScale
  let upper := interval.upper * unitScale
  if interval.closed then lower ≤ point && point ≤ upper else lower < point && point < upper

/-- The point of the interval on the grid of multiples of `10 ^ position` that is nearest to its
middle, if there is one. -/
def nearestOnGrid (interval : Interval) (tie : TieRule) (position : Int) : Option Decimal :=
  let (gridScale, unitScale) := interval.scales position
  let middle := interval.middle * unitScale
  let below := middle / gridScale
  let above := below + 1
  match interval.contains position below && below ≠ 0, interval.contains position above with
  | true, true =>
      let distanceBelow := middle - below * gridScale
      let distanceAbove := above * gridScale - middle
      if distanceBelow < distanceAbove then some ⟨below, position⟩
      else if distanceAbove < distanceBelow then some ⟨above, position⟩
      else match tie with
        | .upwards => some ⟨above, position⟩
        | .toEven =>
            if below % 2 = 0 then some ⟨below, position⟩ else some ⟨above, position⟩
  | true, false => some ⟨below, position⟩
  | false, true => some ⟨above, position⟩
  | false, false => none

/-- The shortest decimal in the interval: the first grid that has one, from one digit to seventeen.
-/
def shortest (interval : Interval) (tie : TieRule) : Decimal :=
  let (gridScale, unitScale) := interval.scales 0
  let position := Decimal.leadingPosition (interval.middle * unitScale) gridScale
  let found := (List.range 17).findSome? fun (extra : Nat) =>
    interval.nearestOnGrid tie (position - (extra : Int))
  (found.getD ⟨interval.middle, 0⟩).trimmed 17

end Interval

/-- The shortest decimal of the number at a place. -/
def Format.shortest (format : Format) (tie : TieRule) (place : Nat) : Decimal :=
  if place = 0 then ⟨0, 0⟩ else (Interval.around format place).shortest tie

end BehaviorTree.Number
