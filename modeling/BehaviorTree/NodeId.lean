/-!
# Identities of nodes
-/

namespace BehaviorTree

/-- The identity of a node inside one tree: nodes are counted as they are created. -/
structure NodeId where
  index : Nat
deriving DecidableEq, Repr

def NodeId.display (id : NodeId) : String :=
  s!"#{id.index}"

end BehaviorTree
