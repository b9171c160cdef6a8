import BehaviorTree.Json.Decoder
import BehaviorTree.Json.Reader

/-!
# Reading documents

A document is a record that is taken from the tokens as they come, so that the first thing wrong
with it, in the order of the text, is the failure that is reported.  Unlike in an object that was
read as a value, a field may not be repeated, and members that are no field are skipped instead of
read.
-/

namespace BehaviorTree.Json

/-- The value that starts with a token; of a list or an object only its kind. -/
def Token.head : Token → Except Failure Value
  | .null => .ok .null
  | .boolean value => .ok (.boolean value)
  | .number numeral => if numeral.overflows then .error .malformed else .ok (.number numeral)
  | .text (some content) => .ok (.text content)
  | .openList => .ok (.list [])
  | .openObject => .ok (.object [])
  | .brokenText reading _ => .error reading
  | .broken reading _ => .error reading
  | _ => .error .malformed

/-- A misfit as the failure of a document. -/
def orUnfit {α : Type} : Except String α → Except Failure α
  | .ok result => .ok result
  | .error reason => .error (.unfit reason)

variable {Record : Type}

/-- Takes a field from the front of the tokens.  Only a field that holds a list looks into one. -/
def Field.read (field : Field Record) (record : Record) :
    List Token → Except Failure (Record × List Token)
  | [] => .error .unfinished
  | token :: rest => do
      if field.holdsList && token = .openList then
        let (value, rest) ← readValue 1 (token :: rest)
        return (← orUnfit (field.set record value), rest)
      else
        return (← orUnfit (field.set record (← token.head)), rest)

namespace Shape

variable (shape : Shape Record)

/-- Takes the value of a member: the field of that name, unless it has been seen, or nothing. -/
def readMemberValue (name : String) (record : Record) :
    List Token → Except Failure (Record × List Token)
  | [] => .error .unfinished
  | .colon :: rest =>
      match shape.field? name with
      | some field => field.read record rest
      | none => do return (record, ← skipValue rest)
  | _ :: _ => .error .malformed

/-- Takes a member, after the comma if there is one. -/
def readMember (seen : List String) (record : Record) :
    List Token → Except Failure (String × Record × List Token)
  | [] => .error .unfinished
  | .text (some name) :: rest => do
      if name ∈ seen ∧ (shape.field? name).isSome then
        throw (.unfit s!"duplicate field `{name}`")
      return (name, ← shape.readMemberValue name record rest)
  | .brokenText reading _ :: _ => .error reading
  | _ :: _ => .error .malformed

/-- Takes the members of an object; each takes at least one of its `fuel` tokens. -/
def readMembers :
    Nat → List String → Record → List Token → Except Failure (Record × List Token)
  | 0, _, _, _ => .error .unfinished
  | _ + 1, _, _, [] => .error .unfinished
  | _ + 1, _, record, .closeObject :: rest => .ok (record, rest)
  | fuel + 1, seen, record, .comma :: rest => do
      let (name, record, rest) ← shape.readMember seen record rest
      readMembers fuel (name :: seen) record rest
  | _ + 1, _, _, _ :: _ => .error .malformed

/-- Takes the members of an object, after its opening brace. -/
def readObject : List Token → Except Failure (Record × List Token)
  | [] => .error .unfinished
  | .closeObject :: rest => .ok (shape.blank, rest)
  | tokens => do
      let (name, record, rest) ← shape.readMember [] shape.blank tokens
      shape.readMembers tokens.length [name] record rest

/-- Takes the fields of a record that is written as a list, after its first one.  `taken` fields
have been taken before. -/
def readItems (taken : Nat) :
    List (Field Record) → Record → List Token → Except Failure (Record × List Token)
  | _, _, [] => .error .unfinished
  | fields, record, .closeList :: rest =>
      if fields.any (·.required) then .error (.unfit (shape.tooShort taken))
      else .ok (record, rest)
  | field :: fields, record, .comma :: rest => do
      let (record, rest) ← field.read record rest
      readItems (taken + 1) fields record rest
  | _, _, _ :: _ => .error .malformed

/-- Takes the fields of a record that is written as a list, after its opening bracket. -/
def readList : List Token → Except Failure (Record × List Token)
  | [] => .error .unfinished
  | .closeList :: rest => shape.readItems 0 shape.fields shape.blank (.closeList :: rest)
  | tokens =>
      match shape.fields with
      | [] => .error .malformed
      | field :: fields => do
          let (record, rest) ← field.read shape.blank tokens
          shape.readItems 1 fields record rest

/-- Takes a record from the front of the tokens. -/
def readTokens : List Token → Except Failure (Record × List Token)
  | [] => .error .unfinished
  | .openObject :: rest => shape.readObject rest
  | .openList :: rest => shape.readList rest
  | token :: _ => do throw (.unfit (wrongType (← token.head) shape.expectation))

/-- The record that a whole text holds. -/
def read (text : String) : Except Failure Record := do
  match ← shape.readTokens (tokens text) with
  | (record, []) => return record
  | (_, _ :: _) => throw .malformed

end Shape

end BehaviorTree.Json
