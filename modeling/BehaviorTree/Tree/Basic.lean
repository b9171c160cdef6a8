import BehaviorTree.Node

/-!
# Trees

A tree owns its nodes in a pool, in the order in which they were created.  Its states are the roots
of the hierarchy; a node that no state reaches stays in the pool, so that detached work is not lost.
-/

namespace BehaviorTree

/-- The nodes of a tree with their identities. -/
abbrev Pool := List (NodeId × Node)

namespace Pool

def ids (pool : Pool) : List NodeId :=
  pool.map Prod.fst

def get? (pool : Pool) (id : NodeId) : Option Node :=
  pool.lookup id

/-- The pool with every node changed in place. -/
def mapNodes (pool : Pool) (change : Node → Node) : Pool :=
  pool.map fun (id, node) => (id, change node)

/-- The pool with one node changed in place. -/
def modify (pool : Pool) (id : NodeId) (change : Node → Node) : Pool :=
  pool.map fun (other, node) => (other, if other = id then change node else node)

/-- The pool with every edge changed in place. -/
def mapEdges (pool : Pool) (change : Edge → Edge) : Pool :=
  pool.mapNodes fun node => { node with edges := node.edges.map change }

def erase (pool : Pool) (id : NodeId) : Pool :=
  pool.filter (·.1 ≠ id)

end Pool

/-- The name of the state of a fresh tree, and of states that a document turns out to need. -/
def defaultStateName : String := "Default"

/-- A behavior tree that is being authored. -/
structure Tree where
  name : String
  defaultState : String := defaultStateName
  /-- How code generation writes handlers. -/
  expandMethods : Bool := false
  states : List NodeId := []
  pool : Pool := []
  /-- How many nodes have been created; it becomes the next identity. -/
  created : Nat := 0
deriving DecidableEq

namespace Tree

def get? (tree : Tree) (id : NodeId) : Option Node :=
  tree.pool.get? id

def contains (tree : Tree) (id : NodeId) : Bool :=
  (tree.get? id).isSome

/-- The identity of the node that is created next. -/
def nextId (tree : Tree) : NodeId :=
  ⟨tree.created⟩

/-- The tree with one more node, under the next identity. -/
def insert (tree : Tree) (node : Node) : Tree :=
  { tree with pool := tree.pool ++ [(tree.nextId, node)], created := tree.created + 1 }

/-- The tree with one more node that is a state. -/
def insertState (tree : Tree) (name : String) : Tree :=
  { tree.insert (Node.state name) with states := tree.states ++ [tree.nextId] }

/-- A tree with a single state without children. -/
def new (name : String) : Tree :=
  insertState { name } defaultStateName

def modify (tree : Tree) (id : NodeId) (change : Node → Node) : Tree :=
  { tree with pool := tree.pool.modify id change }

/-- The first node of a name. -/
def findByName? (tree : Tree) (name : String) : Option NodeId :=
  (tree.pool.find? (·.2.name = name)).map Prod.fst

/-- The first state of a name. -/
def state? (tree : Tree) (name : String) : Option NodeId :=
  tree.states.find? fun id => (tree.get? id).any (·.name = name)

def hasState (tree : Tree) (name : String) : Bool :=
  (tree.state? name).isSome

/-- The definitions of a node that carries parameters. -/
def definitions? (tree : Tree) (id : NodeId) : Option ParameterSet :=
  (tree.get? id).bind Node.parameters?

/-- Bindings brought in step with the definitions of a child, where it carries any. -/
def fitBindings (tree : Tree) (child : NodeId) (bindings : ParameterSet) : ParameterSet :=
  match tree.definitions? child with
  | some definitions => bindings.matched definitions
  | none => bindings

/-- The edge at a position of a parent. -/
def edge? (tree : Tree) (parent : NodeId) (index : Nat) : Option Edge :=
  (tree.get? parent).bind (·.edges[index]?)

/-- The nodes that have an edge to a node. -/
def parentsOf (tree : Tree) (id : NodeId) : List NodeId :=
  (tree.pool.filter fun (_, node) => (node.indexOf? id).isSome).map Prod.fst

/-- The tree with all bindings in step with the definitions of their children. -/
def matchParameters (tree : Tree) : Tree :=
  { tree with
    pool := tree.pool.mapEdges fun edge =>
      { edge with bindings := tree.fitBindings edge.child edge.bindings } }

end Tree

end BehaviorTree
