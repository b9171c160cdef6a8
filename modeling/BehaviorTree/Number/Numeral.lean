import BehaviorTree.Number.Decimal

/-!
# Decimal numerals

A numeral is a number as it is written: a sign, digits before and after the point, and perhaps an
exponent.  A layout turns a binary number into a numeral; the digits are always those of its
shortest decimal, and the layout decides where they stand.
-/

namespace BehaviorTree.Number

/-- The last decimal digit of a number. -/
def lastDigit (value : Nat) : Fin 10 :=
  Fin.ofNat 10 value

/-- The last `width` decimal digits of a number, leading zeros included. -/
def digitsOf : Nat → Nat → List (Fin 10)
  | 0, _ => []
  | width + 1, value => digitsOf width (value / 10) ++ [lastDigit value]

/-- The decimal digits of a number, without leading zeros. -/
def decimalDigits (value : Nat) : List (Fin 10) :=
  digitsOf (digitCount value) value

/-- The number that a list of decimal digits writes. -/
def ofDigits (digits : List (Fin 10)) : Nat :=
  digits.foldl (fun value digit => value * 10 + digit.val) 0

def digitChar (digit : Fin 10) : Char :=
  Char.ofNat (digit.val + '0'.toNat)

/-- A number as it is written.  The exponent, where there is one, is that of ten. -/
structure Numeral where
  negative : Bool
  whole : Nat
  fraction : List (Fin 10)
  exponent : Option Int
deriving DecidableEq, Repr

namespace Numeral

/-- The numeral of an integer. -/
def ofInt (value : Int) : Numeral :=
  ⟨value < 0, value.natAbs, [], none⟩

/-- The characters of a numeral.  An exponent always carries its sign. -/
def characters (numeral : Numeral) : List Char :=
  (if numeral.negative then ['-'] else []) ++
    (decimalDigits numeral.whole).map digitChar ++
    (if numeral.fraction = [] then [] else '.' :: numeral.fraction.map digitChar) ++
    match numeral.exponent with
    | none => []
    | some exponent =>
        'e' :: (if exponent < 0 then '-' else '+') ::
          (decimalDigits exponent.natAbs).map digitChar

def text (numeral : Numeral) : String :=
  String.ofList numeral.characters

end Numeral

/-- How binary numbers are written. -/
structure Layout where
  tie : TieRule
  /-- The positions of the first digit that need no exponent; without them none ever does. -/
  positional : Option (Int × Int)
  /-- Whether a whole number without an exponent is written with `.0`. -/
  pointZero : Bool

namespace Layout

/-- Numbers in messages: never an exponent, and whole numbers without a point. -/
def message : Layout := ⟨.upwards, none, false⟩

/-- Single precision numbers in documents. -/
def singleInDocument : Layout := ⟨.toEven, some (-6, 12), true⟩

/-- Double precision numbers in documents. -/
def doubleInDocument : Layout := ⟨.toEven, some (-5, 15), true⟩

def isPositional (layout : Layout) (position : Int) : Bool :=
  match layout.positional with
  | none => true
  | some (lowest, highest) => lowest ≤ position && position ≤ highest

/-- A decimal laid out as a numeral. -/
def numeral (layout : Layout) (negative : Bool) (decimal : Decimal) : Numeral :=
  let position := decimal.firstPosition
  if layout.isPositional position then
    if 0 ≤ decimal.exponent then
      { negative, whole := decimal.digits * tenTo decimal.exponent.toNat
        fraction := if layout.pointZero then [0] else []
        exponent := none }
    else
      let places := (-decimal.exponent).toNat
      { negative, whole := decimal.digits / tenTo places
        fraction := digitsOf places (decimal.digits % tenTo places)
        exponent := none }
  else
    let following := digitCount decimal.digits - 1
    { negative, whole := decimal.digits / tenTo following
      fraction := digitsOf following (decimal.digits % tenTo following)
      exponent := some position }

end Layout

namespace Binary

variable {format : Format}

/-- The numeral of a finite number. -/
def numeral? (layout : Layout) : Binary format → Option Numeral
  | .finite negative place => some (layout.numeral negative (format.shortest layout.tie place))
  | _ => none

/-- A number as messages show it. -/
def display (value : Binary format) : String :=
  match value.numeral? .message, value with
  | some numeral, _ => numeral.text
  | none, .infinity true => "-inf"
  | none, .infinity false => "inf"
  | none, _ => "NaN"

end Binary

end BehaviorTree.Number
