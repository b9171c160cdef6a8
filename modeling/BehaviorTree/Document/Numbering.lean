import BehaviorTree.Document.Record
import BehaviorTree.Tree.Hierarchy

/-!
# The document of a tree

A document numbers the behaviors of a tree: first those that the states reach, in the order of the
hierarchy, then the others in the order of the pool.  The numbers mean nothing outside the document.
-/

namespace BehaviorTree

open BehaviorTree.Document

namespace Tree

/-- The nodes of a tree in the order of their numbers. -/
def numbered (tree : Tree) : List NodeId :=
  tree.hierarchy ++ tree.extras

/-- The number of a node. -/
def number? (tree : Tree) (id : NodeId) : Option Nat :=
  tree.numbered.idxOf? id

end Tree

namespace Document

def recordOf (parameter : Parameter) : ParameterRecord :=
  ⟨parameter.name, word parameter.type, parameter.value⟩

def recordsOf (parameters : ParameterSet) : List ParameterRecord :=
  parameters.map recordOf

/-- The properties of a composite, on top of a record. -/
def withComposite (record : BehaviorRecord) (children : String) (composite : Composite) :
    BehaviorRecord :=
  let record :=
    { record with compositeType := some (word composite.type), children := some children }
  match composite with
  | .priority order => { record with priority := some (word order) }
  | .state order => { record with priority := some (word order) }
  | .loop count => { record with loopCount := some count }
  | .concurrent policy =>
      { record with
        concurrentProperties := some
          { breakOnConditionFailure := policy.breakOnConditionFailure
            failurePolicy := some (word policy.failure)
            successPolicy := some (word policy.success) } }
  | .sequence => record
  | .random => record

/-- The properties of a leaf, on top of a record. -/
def withLeaf (record : BehaviorRecord) (leaf : Leaf) : BehaviorRecord :=
  { record with
    parameters := some (recordsOf leaf.parameters)
    debug := some ⟨leaf.debugValid⟩ }

/-- The properties of a decorator, on top of a record. -/
def withDecorator (record : BehaviorRecord) (child : String) (decorator : Decorator) :
    BehaviorRecord :=
  let record :=
    { record with
      decoratorType := some (word decorator.type)
      child := some child
      neverFail := some decorator.neverFail
      parameters := some (recordsOf decorator.parameters)
      debug := some ⟨decorator.debugValid⟩ }
  match decorator.kind with
  | .default => record
  | .accessLimit limit =>
      { record with
        keyType := some (word limit.keyType)
        accessKey := some limit.accessKey
        className := some limit.className }

/-- The record of a node, given the numbers of its children. -/
def nodeRecord (number? : NodeId → Option Nat) (number : Nat) (node : Node) :
    BehaviorRecord :=
  let record : BehaviorRecord :=
    { behaviorType := word node.kind.type
      id := number
      name := node.name
      weight := node.weight
      concurrency := some (word node.concurrency)
      comment := node.comment }
  let children := node.childNumbers number?
  match node.kind with
  | .action leaf => withLeaf record leaf
  | .condition leaf => withLeaf record leaf
  | .decorator content => withDecorator record children content
  | .composite content => withComposite record children content
  | .changeState destination => { record with destinationState := some destination }

/-- The record of an attachment, if its child has a number. -/
def childRecord? (number? : NodeId → Option Nat) (edge : Edge) : Option ChildRecord :=
  (number? edge.child).map fun number => ⟨number, recordsOf edge.bindings⟩

/-- The entry of a node, if it has children. -/
def hierarchyEntry? (number? : NodeId → Option Nat) (number : Nat) (node : Node) :
    Option HierarchyEntry :=
  if node.edges.isEmpty then none
  else some ⟨number, node.edges.filterMap (childRecord? number?)⟩

end Document

/-- The nodes of a tree with their numbers. -/
def Tree.numberedNodes (tree : Tree) : List (Nat × Node) :=
  tree.numbered.zipIdx.filterMap fun (id, number) => (tree.get? id).map (number, ·)

/-- The document of a tree. -/
def Tree.toDocument (tree : Tree) : TreeDocument :=
  let order := tree.numbered
  let number? (id : NodeId) : Option Nat := order.idxOf? id
  let nodes := tree.numberedNodes
  { name := tree.name
    defaultState := tree.defaultState
    expandMethods := tree.expandMethods
    behaviors := nodes.map fun (number, node) => nodeRecord number? number node
    hierarchy := nodes.filterMap fun (number, node) => hierarchyEntry? number? number node }

end BehaviorTree
