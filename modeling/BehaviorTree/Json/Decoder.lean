import BehaviorTree.Json.Value
import BehaviorTree.Text.Quoted

/-!
# Decoding JSON values

A decoder takes a value apart into data, or says why it does not fit.  The first misfit ends it: the
members of an object are tried in the order of their names, the items of a list in their own order.

A record may be written as an object or as the list of its fields.  Fields that are left out keep
the value they have in the blank record, unless they are required.
-/

namespace BehaviorTree.Json

open BehaviorTree.Number

/-- Takes a value apart, or says why it does not fit. -/
abbrev Decoder (α : Type) := Value → Except String α

/-- A number as messages about documents show it. -/
def describeReal (value : Double) : String :=
  match value.numeral? .doubleInDocument with
  | some numeral => numeral.text
  | none => value.display

/-- A value as messages about documents show it. -/
def Value.describe : Value → String
  | .null => "null"
  | .boolean value => s!"boolean `{value}`"
  | .number numeral =>
      match numeral.quantity with
      | .integer value => s!"integer `{value}`"
      | .real value => s!"floating point `{describeReal value}`"
  | .text content => "string " ++ Text.quoted content
  | .list _ => "sequence"
  | .object _ => "map"

/-- The value is of another type than the one expected. -/
def wrongType (value : Value) (expected : String) : String :=
  s!"invalid type: {value.describe}, expected {expected}"

namespace Decoder

def text : Decoder String
  | .text content => .ok content
  | value => .error (wrongType value "a string")

def boolean : Decoder Bool
  | .boolean content => .ok content
  | value => .error (wrongType value "a boolean")

/-- An integer between two bounds; `name` names the range. -/
def integer (name : String) (lowest highest : Int) : Decoder Int
  | .number numeral =>
      match numeral.quantity with
      | .integer content =>
          if lowest ≤ content ∧ content ≤ highest then .ok content
          else .error s!"invalid value: integer `{content}`, expected {name}"
      | .real _ => .error (wrongType (.number numeral) name)
  | value => .error (wrongType value name)

/-- A document's identity of a behavior. -/
def identity : Decoder Int :=
  integer "i64" (-9223372036854775808) 9223372036854775807

/-- A count that may be negative. -/
def count : Decoder Int32 :=
  fun value => (integer "i32" (-2147483648) 2147483647 value).map Int32.ofInt

/-- A number of elements. -/
def size : Decoder Nat :=
  fun value => (integer "usize" 0 18446744073709551615 value).map Int.toNat

def single : Decoder Single
  | .number numeral => .ok numeral.quantity.toSingle
  | value => .error (wrongType value "f32")

/-- `null`, or a value for another decoder. -/
def optional {α : Type} (decoder : Decoder α) : Decoder (Option α)
  | .null => .ok none
  | value => (decoder value).map some

/-- A list, kept as it is. -/
def items : Decoder (List Value)
  | .list items => .ok items
  | value => .error (wrongType value "a sequence")

def list {α : Type} (decoder : Decoder α) : Decoder (List α) :=
  fun value => do (← items value).mapM decoder

end Decoder

/-- A field of a record. -/
structure Field (Record : Type) where
  name : String
  required : Bool
  /-- Whether the field holds a list. -/
  holdsList : Bool
  /-- The record with the field taken from a value. -/
  set : Record → Value → Except String Record

namespace Field

variable {Record α : Type}

/-- A field with a decoder and a way to store what it yields. -/
def of (name : String) (decoder : Decoder α) (store : Record → α → Record) :
    Field Record where
  name
  required := false
  holdsList := false
  set record value := (decoder value).map (store record)

def needed (field : Field Record) : Field Record :=
  { field with required := true }

def listed (field : Field Record) : Field Record :=
  { field with holdsList := true }

end Field

/-- The fields of a record, in the order in which a list gives them. -/
structure Shape (Record : Type) where
  name : String
  blank : Record
  fields : List (Field Record)

namespace Shape

variable {Record : Type} (shape : Shape Record)

/-- What is expected where a record stands. -/
def expectation : String :=
  "struct " ++ shape.name

def field? (name : String) : Option (Field Record) :=
  shape.fields.find? (·.name = name)

/-- A list of `length` items ends before a required field. -/
def tooShort (length : Nat) : String :=
  s!"invalid length {length}, expected {shape.expectation} with {shape.fields.length} elements"

/-- Stores one member; a name that is no field is ignored. -/
def setMember (record : Record) (member : String × Value) : Except String Record :=
  match shape.field? member.1 with
  | some field => field.set record member.2
  | none => .ok record

/-- The record of an object. -/
def ofMembers (members : List (String × Value)) : Except String Record := do
  let record ← members.foldlM shape.setMember shape.blank
  match shape.fields.find? fun field => field.required && !members.any (·.1 = field.name) with
  | some field => throw s!"missing field `{field.name}`"
  | none => return record

/-- Stores the items of a list of `length` items, field by field. -/
def setItems (length : Nat) : List (Field Record) → List Value → Record → Except String Record
  | [], [], record => .ok record
  | [], _ :: _, _ => .error s!"invalid length {length}, expected fewer elements in array"
  | field :: fields, [], record =>
      if field.required then .error (shape.tooShort length)
      else setItems length fields [] record
  | field :: fields, item :: items, record => do
      setItems length fields items (← field.set record item)

/-- Decodes a record. -/
def decode : Decoder Record
  | .object members => shape.ofMembers members
  | .list items => shape.setItems items.length shape.fields items shape.blank
  | value => .error (wrongType value shape.expectation)

end Shape

end BehaviorTree.Json
