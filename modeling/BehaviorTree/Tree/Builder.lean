import BehaviorTree.Tree.Edit

/-!
# Building trees

A builder assembles a tree from parts that need not pass the checks of an editor, so that the
compiler can report what is wrong with them.  Cycles, children of leaves and states as children are
refused here too.
-/

namespace BehaviorTree

/-- A tree that is being assembled. -/
structure Builder where
  tree : Tree
deriving DecidableEq

namespace Builder

/-- A builder without nodes. -/
def new (name : String) : Builder :=
  ⟨{ name }⟩

/-- The builder with one more node, which gets the next identity. -/
def addNode (builder : Builder) (node : Node) : Builder :=
  ⟨builder.tree.insert node⟩

def get? (builder : Builder) (id : NodeId) : Option Node :=
  builder.tree.get? id

/-- The builder with a child attached after the others, if it can be. -/
def attach (builder : Builder) (parent child : NodeId) (bindings : ParameterSet) :
    Except EditError Builder := do
  return ⟨← builder.tree.attached false parent none child bindings⟩

/-- The builder with a priority selector turned into a state, and without the edges that led to it.
-/
def promoteToState? (builder : Builder) (id : NodeId) : Option Builder :=
  match (builder.get? id).map Node.kind with
  | some (.composite (.priority order)) =>
      let tree := builder.tree.modify id fun node => { node with kind := .composite (.state order) }
      some ⟨{ tree with pool := tree.pool.mapNodes fun node => node.detachedFrom id }⟩
  | _ => none

def setDefaultState (builder : Builder) (name : String) : Builder :=
  ⟨{ builder.tree with defaultState := name }⟩

def setExpandMethods (builder : Builder) (expandMethods : Bool) : Builder :=
  ⟨{ builder.tree with expandMethods }⟩

/-- The finished tree.  Of the given states only nodes that are states count; without any, a fresh
state becomes the default. -/
def finish (builder : Builder) (states : List NodeId) : Tree :=
  let states := states.filter fun id => (builder.get? id).any Node.isState
  let tree := { builder.tree with states }
  if states.isEmpty then
    Tree.matchParameters { tree.insertState defaultStateName with defaultState := defaultStateName }
  else
    tree.matchParameters

end Builder

end BehaviorTree
