import BehaviorTree.Json.Value

/-!
# Writing JSON

Documents are written with one item or member a line, indented by two blanks a level.  Empty lists
and objects stay on their line.  Texts escape the quote, the backslash and control characters, and
nothing else.
-/

namespace BehaviorTree.Json

open BehaviorTree.Number

def hexDigit (value : Nat) : Char :=
  (Nat.digitChar value)

/-- A character as it stands in a written text. -/
def escapedCharacter (character : Char) : List Char :=
  if character = '"' then ['\\', '"']
  else if character = '\\' then ['\\', '\\']
  else if character = '\x08' then ['\\', 'b']
  else if character = '\x0c' then ['\\', 'f']
  else if character = '\n' then ['\\', 'n']
  else if character = '\r' then ['\\', 'r']
  else if character = '\t' then ['\\', 't']
  else if character.toNat < 0x20 then
    ['\\', 'u', '0', '0', hexDigit (character.toNat / 16), hexDigit (character.toNat % 16)]
  else [character]

/-- A text in quotes. -/
def writtenText (text : String) : List Char :=
  '"' :: text.toList.flatMap escapedCharacter ++ ['"']

/-- A new line, `depth` levels deep. -/
def newLine (depth : Nat) : List Char :=
  '\n' :: List.replicate (2 * depth) ' '

mutual

/-- A value that stands `depth` levels deep. -/
def Value.characters (depth : Nat) : Value → List Char
  | .null => ['n', 'u', 'l', 'l']
  | .boolean true => ['t', 'r', 'u', 'e']
  | .boolean false => ['f', 'a', 'l', 's', 'e']
  | .number numeral => numeral.characters
  | .text content => writtenText content
  | .list [] => ['[', ']']
  | .list (item :: items) =>
      '[' :: newLine (depth + 1) ++ item.characters (depth + 1) ++
        remainingItems (depth + 1) items ++ newLine depth ++ [']']
  | .object [] => ['\x7b', '\x7d']
  | .object ((name, value) :: members) =>
      '\x7b' :: newLine (depth + 1) ++ writtenText name ++ [':', ' '] ++
        value.characters (depth + 1) ++ remainingMembers (depth + 1) members ++
        newLine depth ++ ['\x7d']

/-- The items after the first. -/
def remainingItems (depth : Nat) : List Value → List Char
  | [] => []
  | item :: items => ',' :: newLine depth ++ item.characters depth ++ remainingItems depth items

/-- The members after the first. -/
def remainingMembers (depth : Nat) : List (String × Value) → List Char
  | [] => []
  | (name, value) :: members =>
      ',' :: newLine depth ++ writtenText name ++ [':', ' '] ++ value.characters depth ++
        remainingMembers depth members

end

/-- The text of a value. -/
def Value.render (value : Value) : String :=
  String.ofList (value.characters 0)

end BehaviorTree.Json
