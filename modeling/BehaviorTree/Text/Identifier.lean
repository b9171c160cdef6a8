/-!
# Identifiers

Names that code can be generated for: an ASCII letter or an underscore, followed by ASCII letters,
digits and underscores.  Edits insist on them; documents may hold other names, which the compiler
then reports.
-/

namespace BehaviorTree.Text

def startsIdentifier (character : Char) : Bool :=
  character.isAlpha || character = '_'

def continuesIdentifier (character : Char) : Bool :=
  character.isAlphanum || character = '_'

/-- Whether a list of characters is an identifier. -/
def isIdentifierList : List Char → Bool
  | [] => false
  | first :: rest => startsIdentifier first && rest.all continuesIdentifier

/-- Whether a text is an identifier. -/
def isIdentifier (text : String) : Bool :=
  isIdentifierList text.toList

end BehaviorTree.Text
