import BehaviorTree.Number.Quantity

/-!
# JSON values

Numbers are kept as they are written, so that reading and writing a value needs no arithmetic.  The
members of an object that was read are in the order of their names, and each name occurs once; the
members of an object that is to be written are in the order in which they are written.
-/

namespace BehaviorTree.Json

open BehaviorTree.Number

/-- A JSON value. -/
inductive Value where
  | null
  | boolean (value : Bool)
  | number (numeral : Numeral)
  | text (value : String)
  | list (items : List Value)
  | object (members : List (String × Value))

mutual

/-- Whether two values are the same. -/
def Value.same : Value → Value → Bool
  | .null, .null => true
  | .boolean left, .boolean right => left = right
  | .number left, .number right => left = right
  | .text left, .text right => left = right
  | .list left, .list right => sameItems left right
  | .object left, .object right => sameMembers left right
  | _, _ => false

def sameItems : List Value → List Value → Bool
  | [], [] => true
  | left :: lefts, right :: rights => left.same right && sameItems lefts rights
  | _, _ => false

def sameMembers : List (String × Value) → List (String × Value) → Bool
  | [], [] => true
  | (name, left) :: lefts, (other, right) :: rights =>
      name = other && left.same right && sameMembers lefts rights
  | _, _ => false

end

mutual

theorem Value.same_iff (left right : Value) : left.same right = true ↔ left = right := by
  cases left <;> cases right <;>
    simp [Value.same, sameItems_iff, sameMembers_iff]

theorem sameItems_iff (left right : List Value) : sameItems left right = true ↔ left = right := by
  cases left <;> cases right <;> simp [sameItems, Value.same_iff, sameItems_iff]

theorem sameMembers_iff (left right : List (String × Value)) :
    sameMembers left right = true ↔ left = right := by
  rcases left with _ | ⟨⟨name, value⟩, lefts⟩ <;> rcases right with _ | ⟨⟨other, kept⟩, rights⟩ <;>
    simp [sameMembers, Value.same_iff, sameMembers_iff, and_assoc]

end

instance : DecidableEq Value :=
  fun left right => decidable_of_iff _ (left.same_iff right)

/-- The members of an object, with one more.  A name that is already there takes the new value. -/
def insertMember (name : String) (value : Value) :
    List (String × Value) → List (String × Value)
  | [] => [(name, value)]
  | (other, kept) :: rest =>
      if name = other then (name, value) :: rest
      else if name < other then (name, value) :: (other, kept) :: rest
      else (other, kept) :: insertMember name value rest

namespace Value

/-- The value of a finite number; a number that is not finite becomes `null`. -/
def ofBinary {format : Format} (layout : Layout) (number : Binary format) : Value :=
  match number.numeral? layout with
  | some numeral => .number numeral
  | none => .null

def ofInt (value : Int) : Value :=
  .number (.ofInt value)

end Value

end BehaviorTree.Json
