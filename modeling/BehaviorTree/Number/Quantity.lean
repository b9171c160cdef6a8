import BehaviorTree.Number.Numeral

/-!
# Reading numerals

A numeral without a point or an exponent that fits into 64 bits is an integer.  Every other numeral
is a double precision number: its leading digits, as many as fit into 64 bits, are rounded once, and
then scaled by a power of ten that is itself rounded.  The result can differ from the nearest number
in its last bit.
-/

namespace BehaviorTree.Number

/-- What a numeral stands for. -/
inductive Quantity where
  | integer (value : Int)
  | real (value : Double)
deriving DecidableEq, Repr

/-- Digits are gathered below this bound. -/
def significandBound : Nat := twoTo 64

/-- The digits gathered from a numeral, and the power of ten that is still to be applied. -/
structure Gathered where
  significand : Nat
  exponent : Int
  /-- Whether a digit has been left out. -/
  full : Bool

namespace Gathered

/-- The next digit before the point.  Once a digit does not fit, the rest only count. -/
def whole (gathered : Gathered) (digit : Fin 10) : Gathered :=
  let extended := gathered.significand * 10 + digit.val
  if gathered.full || significandBound ≤ extended then
    { gathered with exponent := gathered.exponent + 1, full := true }
  else
    { gathered with significand := extended }

/-- The next digit after the point.  Once a digit does not fit, the rest are ignored. -/
def fraction (gathered : Gathered) (digit : Fin 10) : Gathered :=
  let extended := gathered.significand * 10 + digit.val
  if gathered.full || significandBound ≤ extended then
    { gathered with full := true }
  else
    { gathered with significand := extended, exponent := gathered.exponent - 1 }

end Gathered

/-- The greatest power of ten below the largest double. -/
def greatestPower : Nat := 308

def powerOfTen (exponent : Nat) : Double :=
  Binary.ofNat .double (tenTo exponent)

/-- A number divided by a power of ten, in steps that are powers themselves.  Zero needs no step. -/
def scaledDown (value : Double) (places : Nat) : Double :=
  if places ≤ greatestPower then value.quotient (powerOfTen places)
  else if value.isZero then value
  else scaledDown (value.quotient (powerOfTen greatestPower)) (places - greatestPower)
termination_by places
decreasing_by
  simp only [greatestPower] at *
  omega

/-- A number scaled by a power of ten; infinite when it is out of range. -/
def scaled (significand : Nat) (exponent : Int) : Double :=
  let value := Binary.ofNat .double significand
  if exponent < 0 then scaledDown value (-exponent).toNat
  else if exponent.toNat ≤ greatestPower then value.product (powerOfTen exponent.toNat)
  else if value.isZero then value
  else .infinity false

namespace Numeral

/-- The digits of a numeral, gathered. -/
def gathered (numeral : Numeral) : Gathered :=
  let whole := (decimalDigits numeral.whole).foldl Gathered.whole ⟨0, 0, false⟩
  if numeral.fraction = [] then whole
  else numeral.fraction.foldl Gathered.fraction { whole with full := false }

/-- What a numeral stands for.  Minus zero is no integer. -/
def quantity (numeral : Numeral) : Quantity :=
  let gathered := numeral.gathered
  let signed (value : Double) : Quantity := .real (if numeral.negative then value.negate else value)
  if numeral.fraction = [] ∧ numeral.exponent = none ∧ gathered.full = false then
    if !numeral.negative then .integer gathered.significand
    else if gathered.significand = 0 ∨ twoTo 63 < gathered.significand then
      signed (Binary.ofNat .double gathered.significand)
    else .integer (-(gathered.significand : Int))
  else
    signed (scaled gathered.significand (gathered.exponent + numeral.exponent.getD 0))

/-- Whether a numeral is too large for a double precision number. -/
def overflows (numeral : Numeral) : Bool :=
  match numeral.quantity with
  | .integer _ => false
  | .real value => value.isInfinite

end Numeral

namespace Quantity

/-- The nearest single precision number.  An integer is rounded once. -/
def toSingle : Quantity → Single
  | .integer value => Binary.ofInt .single value
  | .real value => Single.ofDouble value

/-- The nearest double precision number. -/
def toDouble : Quantity → Double
  | .integer value => Binary.ofInt .double value
  | .real value => value

end Quantity

end BehaviorTree.Number
