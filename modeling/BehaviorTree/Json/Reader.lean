import BehaviorTree.Json.Token
import BehaviorTree.Json.Value

/-!
# Reading JSON values

A value is read from tokens by a machine that keeps the lists and objects around its place on a
stack and takes one token at a time.  The same machine skips values; it then accepts any depth of
nesting, any number, and texts that do not form characters.
-/

namespace BehaviorTree.Json

open BehaviorTree.Number

/-- How many lists and objects may stand inside each other where they are read. -/
def deepestNesting : Nat := 127

/-- A list or an object around the place that is read. -/
inductive Frame where
  /-- The items read so far, the last one first. -/
  | list (items : List Value)
  | object (members : List (String × Value))
  /-- An object in which the value of a member is read. -/
  | member (members : List (String × Value)) (name : String)

/-- What may come next. -/
inductive Place where
  | value
  | firstItem
  | afterItem
  | firstName
  | name
  | colon
  | afterMember
deriving DecidableEq, Repr

/-- Where a token leads. -/
inductive Progress where
  | complete (value : Value)
  | ongoing (place : Place) (stack : List Frame)

def Purpose.failure : Purpose → Failure → Failure → Failure
  | .read, reading, _ => reading
  | .skip, _, skipping => skipping

/-- The content of a text token, as far as the purpose needs it. -/
def Purpose.content : Purpose → Option String → Except Failure String
  | _, some content => .ok content
  | .read, none => .error .malformed
  | .skip, none => .ok ""

namespace Progress

/-- A value is finished: it belongs to the innermost frame. -/
def deliver (value : Value) : List Frame → Except Failure Progress
  | [] => .ok (.complete value)
  | .list items :: stack => .ok (.ongoing .afterItem (.list (value :: items) :: stack))
  | .member members name :: stack =>
      .ok (.ongoing .afterMember (.object (insertMember name value members) :: stack))
  | .object _ :: _ => .error .malformed

/-- The innermost list or object ends. -/
def close : List Frame → Except Failure Progress
  | .list items :: stack => deliver (.list items.reverse) stack
  | .object members :: stack => deliver (.object members) stack
  | _ => .error .malformed

/-- A list or an object begins inside `outer` others and those on the stack. -/
def enter (purpose : Purpose) (outer : Nat) (place : Place) (frame : Frame) (stack : List Frame) :
    Except Failure Progress :=
  if purpose = .read ∧ deepestNesting ≤ outer + stack.length then .error .malformed
  else .ok (.ongoing place (frame :: stack))

/-- The token starts a value. -/
def startValue (purpose : Purpose) (outer : Nat) (stack : List Frame) :
    Token → Except Failure Progress
  | .null => deliver .null stack
  | .boolean value => deliver (.boolean value) stack
  | .number numeral =>
      if purpose = .read ∧ numeral.overflows then .error .malformed
      else deliver (.number numeral) stack
  | .text content => do deliver (.text (← purpose.content content)) stack
  | .openList => enter purpose outer .firstItem (.list []) stack
  | .openObject => enter purpose outer .firstName (.object []) stack
  | .brokenText reading skipping => .error (purpose.failure reading skipping)
  | .broken reading skipping => .error (purpose.failure reading skipping)
  | _ => .error .malformed

/-- The token names a member. -/
def startMember (purpose : Purpose) : List Frame → Token → Except Failure Progress
  | .object members :: stack, .text content => do
      return .ongoing .colon (.member members (← purpose.content content) :: stack)
  | _, .brokenText reading skipping => .error (purpose.failure reading skipping)
  | _, _ => .error .malformed

/-- Where a token leads from a place. -/
def advance (purpose : Purpose) (outer : Nat) (stack : List Frame) :
    Place → Token → Except Failure Progress
  | .value, token => startValue purpose outer stack token
  | .firstItem, .closeList => close stack
  | .firstItem, token => startValue purpose outer stack token
  | .afterItem, .comma => .ok (.ongoing .value stack)
  | .afterItem, .closeList => close stack
  | .firstName, .closeObject => close stack
  | .firstName, token => startMember purpose stack token
  | .name, token => startMember purpose stack token
  | .colon, .colon => .ok (.ongoing .value stack)
  | .afterMember, .comma => .ok (.ongoing .name stack)
  | .afterMember, .closeObject => close stack
  | _, _ => .error .malformed

end Progress

/-- Takes tokens until the outermost value is complete. -/
def continueValue (purpose : Purpose) (outer : Nat) :
    Place → List Frame → List Token → Except Failure (Value × List Token)
  | _, _, [] => .error .unfinished
  | place, stack, token :: rest =>
      match Progress.advance purpose outer stack place token with
      | .error failure => .error failure
      | .ok (.complete value) => .ok (value, rest)
      | .ok (.ongoing place stack) => continueValue purpose outer place stack rest

/-- The value at the front of the tokens, inside `outer` lists and objects, and the tokens after it.
-/
def readValue (outer : Nat) (tokens : List Token) : Except Failure (Value × List Token) :=
  continueValue .read outer .value [] tokens

/-- The tokens after the value at their front. -/
def skipValue (tokens : List Token) : Except Failure (List Token) :=
  (continueValue .skip 0 .value [] tokens).map Prod.snd

/-- The value that a whole text holds. -/
def Value.parse (text : String) : Except Failure Value := do
  match ← readValue 0 (tokens text) with
  | (value, []) => return value
  | (_, _ :: _) => throw .malformed

end BehaviorTree.Json
