import BehaviorTree.Text.Identifier
import BehaviorTree.Tree.Hierarchy

/-!
# Editing

An edit is a step on a tree in place: it answers or refuses, and either way leaves a tree behind.  A
refusal leaves the tree as it was; since some edits change several parts of the tree one after the
other, that is a fact about all of them together and not about the way they are written.
-/

namespace BehaviorTree

open BehaviorTree.Number

/-- A step on a tree that answers or refuses. -/
abbrev Editing (α : Type) := ExceptT EditError (StateM Tree) α

namespace Tree

/-- Whether an edge from `parent` to `child` would close a cycle. -/
def wouldCycle (tree : Tree) (parent child : NodeId) : Bool :=
  parent = child || tree.reaches child parent

/-- The position at which a child can be attached: the one asked for, or the end.  Under an editor a
decorator has one child at most; a builder accepts more. -/
def attachPosition (tree : Tree) (editing : Bool) (parentId : NodeId) (index : Option Nat)
    (childId : NodeId) : Except EditError Nat := do
  let some parent := tree.get? parentId | throw (.unknownNode parentId)
  let some child := tree.get? childId | throw (.unknownNode childId)
  if parent.isLeaf then throw (.leafNode parent.name)
  if child.isState then throw (.stateAsChild child.name)
  if editing && parent.kind.isDecorator && 0 < parent.edges.length then
    throw (.decoratorOccupied parent.name)
  let position := index.getD parent.edges.length
  if parent.edges.length < position then
    throw (.indexOutOfRange position parent.edges.length)
  if tree.wouldCycle parentId childId then throw (.cycle parentId childId)
  return position

/-- The tree with one more edge. -/
def insertEdge (tree : Tree) (parent : NodeId) (position : Nat) (edge : Edge) : Tree :=
  tree.modify parent fun node => { node with edges := node.edges.insertIdx position edge }

/-- The tree with a child attached, if it can be. -/
def attached (tree : Tree) (editing : Bool) (parent : NodeId) (index : Option Nat) (child : NodeId)
    (bindings : ParameterSet) : Except EditError Tree := do
  let position ← tree.attachPosition editing parent index child
  return tree.insertEdge parent position ⟨child, tree.fitBindings child bindings⟩

/-- The name of the first state. -/
def firstStateName? (tree : Tree) : Option String :=
  tree.states.head?.bind fun state => (tree.get? state).map Node.name

end Tree

namespace Editing

/-- The node of an identity. -/
def require (id : NodeId) : Editing Node := do
  match (← get).get? id with
  | some node => return node
  | none => throw (.unknownNode id)

/-- Takes a node out of the pool. -/
def take (id : NodeId) : Editing Node := do
  let node ← require id
  modify fun tree => { tree with pool := tree.pool.erase id }
  return node

/-- Changes a node of the pool. -/
def change (id : NodeId) (change : Node → Node) : Editing Unit :=
  modify fun tree => tree.modify id change

/-! ## The pool -/

/-- Adds a node without attaching it.  States are refused. -/
def addNode (node : Node) : Editing NodeId := do
  if node.isState then throw (.stateNode node.name)
  let id := (← get).nextId
  modify fun tree => tree.insert node
  return id

/-- Deletes a node that no state reaches, with the edges that lead to it.  Its children stay. -/
def deleteNode (id : NodeId) : Editing Node := do
  let node ← require id
  if (← get).isInHierarchy id then throw (.inHierarchy node.name)
  modify fun tree => { tree with pool := tree.pool.mapNodes fun other => other.detachedFrom id }
  take id

/-! ## States -/

def setDefaultState (name : String) : Editing Unit := do
  if (← get).hasState name then
    modify fun tree => { tree with defaultState := name }
  else
    throw (.unknownState name)

/-- Adds a state without children. -/
def addState (name : String) : Editing NodeId := do
  if !Text.isIdentifier name then throw (.invalidName name)
  if (← get).hasState name then throw (.duplicateStateName name)
  let id := (← get).nextId
  modify fun tree => tree.insertState name
  return id

/-- Removes a state; what it reaches stays in the pool.  If it has the name of the default state,
the first remaining state becomes the default. -/
def removeState (id : NodeId) : Editing Node := do
  let tree ← get
  if id ∉ tree.states then throw (.notAState id)
  if tree.states.length = 1 then throw .lastState
  modify fun tree => { tree with states := tree.states.erase id }
  let node ← take id
  if node.name = tree.defaultState then
    modify fun tree =>
      { tree with defaultState := tree.firstStateName?.getD tree.defaultState }
  return node

/-! ## Children -/

/-- Attaches a child at a position, or after the other children. -/
def attach (parent : NodeId) (index : Option Nat) (child : NodeId) (bindings : ParameterSet) :
    Editing Unit := do
  match (← get).attached true parent index child bindings with
  | .ok tree => set tree
  | .error refusal => throw refusal

/-- Detaches the first edge to a child and answers its bindings. -/
def removeChild (parentId child : NodeId) : Editing ParameterSet := do
  let parent ← require parentId
  let some index := parent.indexOf? child | throw (.notAChild parentId child)
  let some edge := parent.edges[index]? | throw (.indexOutOfRange index parent.edges.length)
  change parentId fun node => { node with edges := node.edges.eraseIdx index }
  return edge.bindings

/-- Moves a child to another position. -/
def moveChild (parentId : NodeId) (origin destination : Nat) : Editing Unit := do
  let parent ← require parentId
  let length := parent.edges.length
  if length ≤ origin then throw (.indexOutOfRange origin length)
  if length ≤ destination then throw (.indexOutOfRange destination length)
  let some edge := parent.edges[origin]? | throw (.indexOutOfRange origin length)
  change parentId fun node =>
    { node with edges := (node.edges.eraseIdx origin).insertIdx destination edge }

/-- Puts another child in the place of the first edge to a child.  The bindings stay, in step with
the definitions of the new child. -/
def replaceChild (parentId old new : NodeId) : Editing Unit := do
  let parent ← require parentId
  let some index := parent.indexOf? old | throw (.notAChild parentId old)
  let child ← require new
  if child.isState then throw (.stateAsChild child.name)
  let tree ← get
  if tree.wouldCycle parentId new then throw (.cycle parentId new)
  change parentId fun node =>
    { node with
      edges := node.edges.modify index fun edge => ⟨new, tree.fitBindings new edge.bindings⟩ }

/-! ## Properties -/

/-- Renames a node.  The default state keeps up with its name. -/
def rename (id : NodeId) (name : String) : Editing Unit := do
  if !Text.isIdentifier name then throw (.invalidName name)
  let tree ← get
  let isState := id ∈ tree.states
  if isState ∧ (tree.state? name).any (· ≠ id) then throw (.duplicateStateName name)
  let node ← require id
  change id fun node => { node with name }
  if isState ∧ tree.defaultState = node.name then
    modify fun tree => { tree with defaultState := name }

/-- Gives a composite another content.  A state stays a state, and nothing else becomes one. -/
def setComposite (id : NodeId) (composite : Composite) : Editing Unit := do
  let node ← require id
  match node.kind with
  | .composite current =>
      if current.isState != composite.isState then throw (.stateKindChange node.name)
      change id fun node => { node with kind := .composite composite }
  | _ => throw (.notAComposite node.name)

/-- Gives a node another weight, which has to be finite and above zero. -/
def setWeight (id : NodeId) (weight : Single) : Editing Unit := do
  if weight.isAtMostZero || !weight.isFinite then throw (.invalidWeight weight)
  let _ ← require id
  change id fun node => { node with weight }

/-- Sets free properties of a node, and answers whether there is one. -/
def setProperties (id : NodeId) (properties : List Property) : Editing Bool := do
  let found := (← get).contains id
  change id fun node => properties.foldl Node.withProperty node
  return found

/-! ## Parameters -/

/-- The definitions of a node, which has to carry parameters. -/
def definitions (id : NodeId) : Editing ParameterSet := do
  let node ← require id
  match node.parameters? with
  | some definitions => return definitions
  | none => throw (.noParameters node.name)

/-- Brings the bindings of every edge to a node in step with its definitions. -/
def refit (id : NodeId) : Editing Unit :=
  modify fun tree =>
    { tree with
      pool := tree.pool.mapEdges fun edge =>
        if edge.child = id then
          { edge with bindings := tree.fitBindings id edge.bindings }
        else edge }

/-- Defines one more parameter. -/
def addParameter (id : NodeId) (parameter : Parameter) : Editing Unit := do
  match (← definitions id).add parameter with
  | .ok parameters =>
      change id fun node => node.withParameters parameters
      refit id
  | .error refusal => throw refusal

/-- Removes the first definition of a name and answers it. -/
def removeParameter (id : NodeId) (name : String) : Editing Parameter := do
  let parameters ← definitions id
  let some removed := parameters.find name | throw (.unknownParameter name)
  change id fun node => node.withParameters (parameters.without name)
  refit id
  return removed

/-- Gives a definition another default.  Bindings keep their values. -/
def setParameterDefault (id : NodeId) (name value : String) : Editing Unit := do
  let parameters ← definitions id
  if parameters.defines name then
    change id fun node => node.withParameters (parameters.assign name value)
  else
    throw (.unknownParameter name)

/-- Binds a parameter of the edge at a position. -/
def setBinding (parentId : NodeId) (index : Nat) (name value : String) : Editing Unit := do
  let parent ← require parentId
  let some edge := parent.edges[index]? | throw (.indexOutOfRange index parent.edges.length)
  if edge.bindings.defines name then
    change parentId fun node =>
      { node with
        edges := node.edges.modify index fun edge =>
          { edge with bindings := edge.bindings.assign name value } }
  else
    throw (.unknownParameter name)

end Editing

/-! ## Edits as data -/

/-- An edit with its arguments. -/
inductive Edit where
  | addNode (node : Node)
  | deleteNode (id : NodeId)
  | addState (name : String)
  | removeState (id : NodeId)
  | setDefaultState (name : String)
  | setName (name : String)
  | setExpandMethods (expand : Bool)
  | rename (id : NodeId) (name : String)
  | setWeight (id : NodeId) (weight : Single)
  | setComposite (id : NodeId) (composite : Composite)
  | addChild (parent child : NodeId) (bindings : ParameterSet)
  | insertChild (parent : NodeId) (index : Nat) (child : NodeId) (bindings : ParameterSet)
  | removeChild (parent child : NodeId)
  | moveChild (parent : NodeId) (origin destination : Nat)
  | replaceChild (parent old new : NodeId)
  | addParameter (id : NodeId) (parameter : Parameter)
  | removeParameter (id : NodeId) (name : String)
  | setParameterDefault (id : NodeId) (name value : String)
  | setBinding (parent : NodeId) (index : Nat) (name value : String)
  | matchParameters
  | setProperties (id : NodeId) (properties : List Property)

/-- What an accepted edit answers. -/
inductive Answer where
  | done
  | id (id : NodeId)
  | node (node : Node)
  | bindings (bindings : ParameterSet)
  | parameter (parameter : Parameter)
  | found (found : Bool)
deriving DecidableEq

namespace Edit

/-- The step of an edit. -/
def step : Edit → Editing Answer
  | addNode node => return .id (← Editing.addNode node)
  | deleteNode id => return .node (← Editing.deleteNode id)
  | addState name => return .id (← Editing.addState name)
  | removeState id => return .node (← Editing.removeState id)
  | setDefaultState name => do
      Editing.setDefaultState name
      return .done
  | setName name => do
      modify fun tree => { tree with name }
      return .done
  | setExpandMethods expandMethods => do
      modify fun tree => { tree with expandMethods }
      return .done
  | rename id name => do
      Editing.rename id name
      return .done
  | setWeight id weight => do
      Editing.setWeight id weight
      return .done
  | setComposite id composite => do
      Editing.setComposite id composite
      return .done
  | addChild parent child bindings => do
      Editing.attach parent none child bindings
      return .done
  | insertChild parent index child bindings => do
      Editing.attach parent (some index) child bindings
      return .done
  | removeChild parent child => return .bindings (← Editing.removeChild parent child)
  | moveChild parent origin destination => do
      Editing.moveChild parent origin destination
      return .done
  | replaceChild parent old new => do
      Editing.replaceChild parent old new
      return .done
  | addParameter id parameter => do
      Editing.addParameter id parameter
      return .done
  | removeParameter id name => return .parameter (← Editing.removeParameter id name)
  | setParameterDefault id name value => do
      Editing.setParameterDefault id name value
      return .done
  | setBinding parent index name value => do
      Editing.setBinding parent index name value
      return .done
  | matchParameters => do
      modify Tree.matchParameters
      return .done
  | setProperties id properties => return .found (← Editing.setProperties id properties)

/-- The answer of an edit and the tree that it leaves behind. -/
def apply (edit : Edit) (tree : Tree) : Except EditError Answer × Tree :=
  (edit.step.run tree)

/-- The tree that a run of edits leaves behind, whether they are accepted or refused. -/
def applyAll (edits : List Edit) (tree : Tree) : Tree :=
  edits.foldl (fun tree edit => (edit.apply tree).2) tree

end Edit

end BehaviorTree
