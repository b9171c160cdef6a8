import BehaviorTree.Text.Hidden

/-!
# Quoted text

Messages about documents show the text they found between double quotes.  A quote, a backslash and
the common control characters are written with a backslash, and every other character that does not
show is written by its number.
-/

namespace BehaviorTree.Text

/-- A character as it stands between quotes. -/
def quotedCharacter (character : Char) : List Char :=
  if character = '"' then ['\\', '"']
  else if character = '\\' then ['\\', '\\']
  else if character = '\n' then ['\\', 'n']
  else if character = '\r' then ['\\', 'r']
  else if character = '\t' then ['\\', 't']
  else if character.toNat = 0 then ['\\', '0']
  else if isHidden character then
    ['\\', 'u', '\x7b'] ++ Nat.toDigits 16 character.toNat ++ ['\x7d']
  else [character]

/-- A text between double quotes. -/
def quoted (text : String) : String :=
  String.ofList ('"' :: text.toList.flatMap quotedCharacter ++ ['"'])

end BehaviorTree.Text
