import BehaviorTree.Number.Quantity
import Mathlib.Algebra.Group.Nat.Defs
import Mathlib.Data.List.Induction

/-!
# Digits of numbers

The decimal digits of a number write that number, without leading zeros.  Reading gathers digits
exactly as long as they stay below the bound.
-/

namespace BehaviorTree.Number

/-! ## Writing digits -/

theorem ofDigits_append (front : List (Fin 10)) (digit : Fin 10) :
    ofDigits (front ++ [digit]) = ofDigits front * 10 + digit.val := by
  simp [ofDigits, List.foldl_append]

theorem length_digitsOf (width value : Nat) : (digitsOf width value).length = width := by
  induction width generalizing value with
  | zero => rfl
  | succ width ih => simp [digitsOf, ih]

theorem ofDigits_digitsOf (width value : Nat) :
    ofDigits (digitsOf width value) = value % 10 ^ width := by
  induction width generalizing value with
  | zero => simp [digitsOf, ofDigits, Nat.mod_one]
  | succ width ih =>
      rw [digitsOf, ofDigits_append, ih, Nat.pow_succ', Nat.mod_mul]
      have last : (lastDigit value).val = value % 10 := rfl
      rw [last]
      omega

theorem ofDigits_lt (digits : List (Fin 10)) : ofDigits digits < 10 ^ digits.length := by
  induction digits using List.reverseRecOn with
  | nil => decide
  | append_singleton front digit ih =>
      rw [ofDigits_append, List.length_append, List.length_singleton, Nat.pow_succ]
      have bound := digit.isLt
      omega

theorem digitCount_pos (value : Nat) : 0 < digitCount value :=
  Nat.length_toDigits_pos

theorem lt_ten_pow_digitCount (value : Nat) : value < 10 ^ digitCount value :=
  (Nat.length_toDigits_le_iff (by decide) (digitCount_pos value)).mp (Nat.le_refl _)

theorem digitCount_le {value width : Nat} (positive : 0 < width) (bound : value < 10 ^ width) :
    digitCount value ≤ width :=
  (Nat.length_toDigits_le_iff (by decide) positive).mpr bound

theorem ofDigits_decimalDigits (value : Nat) : ofDigits (decimalDigits value) = value := by
  rw [decimalDigits, ofDigits_digitsOf, Nat.mod_eq_of_lt (lt_ten_pow_digitCount value)]

theorem decimalDigits_ne_nil (value : Nat) : decimalDigits value ≠ [] := by
  rw [← List.length_pos_iff, decimalDigits, length_digitsOf]
  exact digitCount_pos value

/-- Only zero itself starts with a zero. -/
theorem eq_nil_of_decimalDigits_eq_zero_cons {value : Nat} {rest : List (Fin 10)}
    (digits : decimalDigits value = 0 :: rest) : rest = [] := by
  by_contra longer
  have positive := List.length_pos_iff.mpr longer
  have count : digitCount value = rest.length + 1 := by
    have lengths := congrArg List.length digits
    rwa [decimalDigits, length_digitsOf, List.length_cons] at lengths
  have small : value < 10 ^ rest.length := by
    have written := ofDigits_decimalDigits value
    rw [digits] at written
    have bound := ofDigits_lt rest
    simp only [ofDigits, List.foldl_cons, Fin.val_zero, Nat.zero_mul, Nat.add_zero] at written bound
    omega
  have bound := digitCount_le positive small
  omega

/-! ## Gathering digits -/

theorem ofDigits_le_foldl (digits : List (Fin 10)) (start : Nat) :
    start ≤ digits.foldl (fun value digit => value * 10 + digit.val) start := by
  induction digits generalizing start with
  | nil => exact Nat.le_refl start
  | cons digit digits ih =>
      have grown : start ≤ start * 10 + digit.val := by omega
      exact Nat.le_trans grown (ih _)

theorem foldl_whole {digits : List (Fin 10)} {start : Nat}
    (bound : digits.foldl (fun value digit => value * 10 + digit.val) start < significandBound)
    (exponent : Int) :
    digits.foldl Gathered.whole ⟨start, exponent, false⟩ =
      ⟨digits.foldl (fun value digit => value * 10 + digit.val) start, exponent, false⟩ := by
  induction digits generalizing start with
  | nil => rfl
  | cons digit digits ih =>
      have small : start * 10 + digit.val < significandBound :=
        Nat.lt_of_le_of_lt (ofDigits_le_foldl digits _) bound
      have gathered : Gathered.whole ⟨start, exponent, false⟩ digit =
          ⟨start * 10 + digit.val, exponent, false⟩ := by
        simp [Gathered.whole, Nat.not_le.mpr small]
      rw [List.foldl_cons, gathered]
      exact ih bound

theorem gathered_of_lt {numeral : Numeral} (bound : numeral.whole < significandBound)
    (noFraction : numeral.fraction = []) : numeral.gathered = ⟨numeral.whole, 0, false⟩ := by
  have written := ofDigits_decimalDigits numeral.whole
  rw [ofDigits] at written
  rw [Numeral.gathered, if_pos noFraction, foldl_whole (by rwa [written]), written]

theorem quantity_of_lt {numeral : Numeral} (bound : numeral.whole < significandBound)
    (noFraction : numeral.fraction = []) (noExponent : numeral.exponent = none) :
    numeral.quantity =
      if numeral.negative = false then .integer numeral.whole
      else if numeral.whole = 0 ∨ twoTo 63 < numeral.whole then
        .real (Binary.ofNat .double numeral.whole).negate
      else .integer (-(numeral.whole : Int)) := by
  simp only [Numeral.quantity, gathered_of_lt bound noFraction, noFraction, noExponent, and_self,
    ↓reduceIte]
  cases numeral.negative <;> simp

/-- Integers of 64 bits are read as what they are, signed or unsigned. -/
theorem quantity_ofInt {value : Int} (lowest : -9223372036854775808 ≤ value)
    (highest : value ≤ 18446744073709551615) :
    (Numeral.ofInt value).quantity = .integer value := by
  have bound : (Numeral.ofInt value).whole < significandBound := by
    change value.natAbs < 18446744073709551616
    omega
  rw [quantity_of_lt bound rfl rfl]
  by_cases negative : value < 0
  · have sign : (Numeral.ofInt value).negative ≠ false := by simp [Numeral.ofInt, negative]
    have magnitude : ¬((Numeral.ofInt value).whole = 0 ∨ twoTo 63 < (Numeral.ofInt value).whole) := by
      change ¬(value.natAbs = 0 ∨ 9223372036854775808 < value.natAbs)
      omega
    rw [if_neg sign, if_neg magnitude]
    change Quantity.integer (-(value.natAbs : Int)) = _
    congr 1
    omega
  · have sign : (Numeral.ofInt value).negative = false := by simp [Numeral.ofInt, negative]
    rw [if_pos sign]
    change Quantity.integer (value.natAbs : Int) = _
    congr 1
    omega

end BehaviorTree.Number
