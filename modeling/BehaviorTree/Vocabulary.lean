/-!
# Vocabularies

Several properties of behaviors take one of a few named values.  Documents and messages write such a
value by its word; the words of one property are all different, so a word reads back as its value.
-/

namespace BehaviorTree

/-- A type whose values are named by words. -/
class Vocabulary (α : Type) where
  /-- What the words name. -/
  label : String
  /-- All values, in their customary order. -/
  all : List α
  word : α → String

export Vocabulary (word)

/-- A word that names no value. -/
structure UnknownWord where
  label : String
  word : String
deriving DecidableEq, Repr

def UnknownWord.message (unknown : UnknownWord) : String :=
  s!"'{unknown.word}' is not a valid {unknown.label}"

/-- The value that a word names. -/
def Vocabulary.ofWord (α : Type) [Vocabulary α] (word : String) : Except UnknownWord α :=
  match (Vocabulary.all : List α).find? fun value => Vocabulary.word value = word with
  | some value => .ok value
  | none => .error ⟨Vocabulary.label α, word⟩

end BehaviorTree
