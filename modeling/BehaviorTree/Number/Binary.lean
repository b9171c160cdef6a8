import BehaviorTree.Number.Power

/-!
# Binary floating point

The numbers of a binary format are held by their place: the finite numbers that are not negative are
counted upwards from zero, and a number is its sign and that count.  Every number then has exactly
one representation, and the neighbours of a number are the neighbours of its place.

Rounding is exact: a fraction of natural numbers goes to the nearest place, and a tie goes to the
even one.  Nothing here depends on the arithmetic of the machine.
-/

namespace BehaviorTree.Number

/-- A binary format: bits of precision, and the exponents of the last bit of its smallest and of its
largest numbers. -/
structure Format where
  precision : Nat
  minExponent : Int
  maxExponent : Int
deriving DecidableEq, Repr

namespace Format

/-- The format of weights and time intervals. -/
def single : Format := ⟨24, -149, 104⟩

/-- The format in which decimal numerals are read. -/
def double : Format := ⟨53, -1074, 971⟩

/-- How many numbers share the exponent of their last bit. -/
def binade (format : Format) : Nat :=
  twoTo (format.precision - 1)

/-- How many finite numbers are not negative. -/
def finiteCount (format : Format) : Nat :=
  (format.maxExponent - format.minExponent + 2).toNat * format.binade

/-- The number at a place, as a significand and the exponent of its last bit. -/
def magnitude (format : Format) (place : Nat) : Nat × Int :=
  if place < format.binade then
    (place, format.minExponent)
  else
    (place % format.binade + format.binade,
      format.minExponent + ((place / format.binade : Nat) - 1 : Int))

end Format

/-- A number of a binary format. -/
inductive Binary (format : Format) where
  | nan
  | infinity (negative : Bool)
  | finite (negative : Bool) (place : Fin format.finiteCount)
deriving DecidableEq, Repr

/-- A single precision number. -/
abbrev Single := Binary .single

/-- A double precision number. -/
abbrev Double := Binary .double

/-- The whole number nearest to a fraction; a tie goes to the even one. -/
def nearest (numerator denominator : Nat) : Nat :=
  let quotient := numerator / denominator
  let remainder := numerator % denominator
  if 2 * remainder < denominator then quotient
  else if denominator < 2 * remainder then quotient + 1
  else if quotient % 2 = 0 then quotient
  else quotient + 1

/-- The exponent of the greatest power of two that is not above a positive fraction. -/
def leadingExponent (numerator denominator : Nat) : Int :=
  let estimate : Int := (Nat.log2 numerator : Int) - (Nat.log2 denominator : Int)
  let reached :=
    if 0 ≤ estimate then denominator * twoTo estimate.toNat ≤ numerator
    else denominator ≤ numerator * twoTo (-estimate).toNat
  if reached then estimate else estimate - 1

namespace Binary

variable {format : Format}

/-- The number at a place, or infinity past the last one. -/
def ofPlace (format : Format) (negative : Bool) (place : Nat) : Binary format :=
  if bound : place < format.finiteCount then .finite negative ⟨place, bound⟩
  else .infinity negative

/-- The number nearest to a fraction. -/
def round (format : Format) (negative : Bool) (numerator denominator : Nat) : Binary format :=
  if numerator = 0 then
    ofPlace format negative 0
  else
    let exponent :=
      max format.minExponent (leadingExponent numerator denominator - (format.precision - 1 : Int))
    let significand :=
      if 0 ≤ exponent then nearest numerator (denominator * twoTo exponent.toNat)
      else nearest (numerator * twoTo (-exponent).toNat) denominator
    ofPlace format negative
      (significand + (exponent - format.minExponent).toNat * format.binade)

/-- The number nearest to `significand * 2 ^ exponent`. -/
def roundDyadic (format : Format) (negative : Bool) (significand : Nat) (exponent : Int) :
    Binary format :=
  if 0 ≤ exponent then round format negative (significand * twoTo exponent.toNat) 1
  else round format negative significand (twoTo (-exponent).toNat)

/-- The number nearest to a natural number. -/
def ofNat (format : Format) (value : Nat) : Binary format :=
  round format false value 1

/-- The number nearest to an integer. -/
def ofInt (format : Format) (value : Int) : Binary format :=
  round format (value < 0) value.natAbs 1

/-- The same number in another format, rounded. -/
def convert (target : Format) : Binary format → Binary target
  | .nan => .nan
  | .infinity negative => .infinity negative
  | .finite negative place =>
      let (significand, exponent) := format.magnitude place
      roundDyadic target negative significand exponent

def negate : Binary format → Binary format
  | .nan => .nan
  | .infinity negative => .infinity !negative
  | .finite negative place => .finite (!negative) place

def isFinite : Binary format → Bool
  | .finite _ _ => true
  | _ => false

def isInfinite : Binary format → Bool
  | .infinity _ => true
  | _ => false

def isZero : Binary format → Bool
  | .finite _ place => place.val = 0
  | _ => false

/-- Whether a number is above zero. -/
def isPositive : Binary format → Bool
  | .nan => false
  | .infinity negative => !negative
  | .finite negative place => !negative && 0 < place.val

/-- Whether a number is zero or below; a `nan` is neither. -/
def isAtMostZero : Binary format → Bool
  | .nan => false
  | .infinity negative => negative
  | .finite negative place => negative || place.val = 0

/-- Equality as numbers: a `nan` equals nothing, and the two zeros are equal. -/
def sameNumber : Binary format → Binary format → Bool
  | .nan, _ => false
  | _, .nan => false
  | left, right => (left.isZero && right.isZero) || left = right

/-- The product of two finite numbers, rounded; anything else is `nan`. -/
def product : Binary format → Binary format → Binary format
  | .finite leftSign left, .finite rightSign right =>
      let (leftSignificand, leftExponent) := format.magnitude left
      let (rightSignificand, rightExponent) := format.magnitude right
      roundDyadic format (leftSign != rightSign) (leftSignificand * rightSignificand)
        (leftExponent + rightExponent)
  | _, _ => .nan

/-- The quotient of two finite numbers, rounded; anything else is `nan`. -/
def quotient : Binary format → Binary format → Binary format
  | .finite leftSign left, .finite rightSign right =>
      let (leftSignificand, leftExponent) := format.magnitude left
      let (rightSignificand, rightExponent) := format.magnitude right
      let shift := leftExponent - rightExponent
      if rightSignificand = 0 then .nan
      else if 0 ≤ shift then
        round format (leftSign != rightSign) (leftSignificand * twoTo shift.toNat) rightSignificand
      else
        round format (leftSign != rightSign) leftSignificand
          (rightSignificand * twoTo (-shift).toNat)
  | _, _ => .nan

end Binary

namespace Single

/-- The weight of a fresh node. -/
def one : Single := Binary.ofNat .single 1

def ofDouble (value : Double) : Single :=
  value.convert .single

def toDouble (value : Single) : Double :=
  value.convert .double

end Single

end BehaviorTree.Number
