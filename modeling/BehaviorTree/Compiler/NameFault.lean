/-!
# Faults of names

Nodes, bindings and access keys all have to have names of their own.  An empty name is a fault
wherever it stands; a name that stands several times is one fault, at the first of its places.
-/

namespace BehaviorTree.Compiler

/-- What is wrong with a name among others. -/
inductive NameFault where
  | empty
  | repeated (count : Nat)
deriving DecidableEq

/-- The fault of the name at a position of a list. -/
def nameFault? (names : List String) (name : String) (position : Nat) : Option NameFault :=
  if name = "" then some .empty
  else if names.idxOf name = position ∧ 1 < names.count name then
    some (.repeated (names.count name))
  else none

end BehaviorTree.Compiler
