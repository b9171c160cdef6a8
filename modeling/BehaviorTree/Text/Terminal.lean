/-!
# Text for terminals

A message is shown on a terminal, which obeys some characters instead of showing them.  Those are
written by their number, with a backslash, so that no name in a document can drive the terminal.
The characters that only lay out text stay as they are.
-/

namespace BehaviorTree.Text

/-- The controls of seven bits that a terminal obeys: bell, backspace, form feed, escape, delete. -/
def shortControls : List Char :=
  ['\x07', '\x08', '\x0c', '\x1b', '\x7f']

/-- Whether a character is one of the controls of eight bits. -/
def isLongControl (character : Char) : Bool :=
  0x80 ≤ character.toNat && character.toNat ≤ 0x9f

/-- A character as it stands in a message. -/
def disarmedCharacter (character : Char) : List Char :=
  let digits := Nat.toDigits 16 character.toNat
  if character ∈ shortControls then ['\\', 'x'] ++ List.replicate (2 - digits.length) '0' ++ digits
  else if isLongControl character then ['\\', 'u', '\x7b'] ++ digits ++ ['\x7d']
  else [character]

/-- A text as it stands in a message. -/
def disarmed (text : String) : String :=
  String.ofList (text.toList.flatMap disarmedCharacter)

end BehaviorTree.Text
