import BehaviorTree.Compiler.Issue
import BehaviorTree.Compiler.NameFault
import BehaviorTree.Tree.Hierarchy

/-!
# Compiling trees

The pass looks at the nodes that the states reach, and at nothing else of a tree.  A first sweep
finds what is wrong with each node and with its edges; a second one looks at composites, and at what
a change of state makes unreachable.
-/

namespace BehaviorTree.Compiler

/-- The issue with a default state that does not exist. -/
def defaultStateIssues (tree : Tree) : List Issue :=
  if tree.defaultState = "" || !tree.hasState tree.defaultState then
    [.invalidDefaultState tree.name]
  else []

/-! ## The first sweep -/

/-- The issue with the name of the node at a position, among the names of all reached nodes. -/
def nameIssues (names : List String) (name : String) (position : Nat) : List Issue :=
  match nameFault? names name position with
  | none => []
  | some .empty => [.emptyName]
  | some (.repeated count) => [.duplicateName name count]

/-- The issues with the names of the bindings of a child. -/
def bindingIssues (child : String) (bindings : ParameterSet) : List Issue :=
  bindings.names.zipIdx.filterMap fun (name, position) =>
    match nameFault? bindings.names name position with
    | none => none
    | some .empty => some (.emptyParameterName child)
    | some (.repeated count) => some (.duplicateParameter child name count)

/-- The issues with the bindings of the children of a node. -/
def edgeIssues (tree : Tree) (node : Node) : List Issue :=
  node.edges.flatMap fun edge =>
    bindingIssues (((tree.get? edge.child).map Node.name).getD "") edge.bindings

/-- The issue with the number of children of a decorator. -/
def decoratorIssues (node : String) : Nat → List Issue
  | 0 => [.decoratorWithoutChild node]
  | 1 => []
  | count => [.decoratorWithManyChildren node count]

/-- The set that a decorator means by a class name. -/
def keySet? (sets : List AccessKeySet) (className : String) : Option AccessKeySet :=
  if className = "" then none else AccessKeySet.named sets className

/-- The issue with the key that a decorator refers to. -/
def limitIssues (sets : List AccessKeySet) (node : String) (limit : AccessLimit) : List Issue :=
  if limit.accessKey = "" then
    [.unknownAccessKey node ""]
  else
    match keySet? sets limit.className with
    | none => [.unknownAccessKeySet node limit.className]
    | some set =>
        match set.find limit.accessKey with
        | none => [.unknownAccessKey node limit.accessKey]
        | some key =>
            if key.type = limit.keyType then []
            else [.keyTypeMismatch node limit.accessKey limit.keyType key.type]

/-- The issues with what only nodes of one kind have. -/
def kindIssues (tree : Tree) (sets : List AccessKeySet) (node : Node) : List Issue :=
  match node.kind with
  | .decorator content =>
      decoratorIssues node.name node.edges.length ++
        content.accessLimit?.toList.flatMap (limitIssues sets node.name)
  | .changeState destination =>
      if tree.hasState destination then []
      else [.unknownDestinationState node.name destination]
  | _ => []

/-- The issue with a weight that is not a number above zero. -/
def weightIssues (node : Node) : List Issue :=
  if node.weight.isFinite && node.weight.isPositive then []
  else [.invalidWeight node.name node.weight]

/-- The issues of the first sweep with one node. -/
def nodeIssues (tree : Tree) (sets : List AccessKeySet) (names : List String) (node : Node)
    (position : Nat) : List Issue :=
  nameIssues names node.name position ++ edgeIssues tree node ++ kindIssues tree sets node ++
    weightIssues node

/-! ## The second sweep -/

/-- The issue with a decorator that never fails below a composite. -/
def neverFailIssue? (parent : String) (composite : Composite) (child : Node) : Option Issue :=
  match child.kind with
  | .decorator content =>
      if content.neverFail then
        match composite with
        | .priority _ => some (.neverFailUnderPriority child.name parent)
        | .state _ => some (.neverFailUnderPriority child.name parent)
        | .concurrent policy =>
            if policy.success = .succeedOnOne then
              some (.neverFailUnderSucceedOnOne child.name parent)
            else none
        | _ => none
      else none
  | _ => none

/-- The issue with a change of state before other children. -/
def unreachableIssue? (parent : String) (child : Node) : Option Issue :=
  match child.kind with
  | .changeState _ => some (.unreachableAfterChangeState parent child.name)
  | _ => none

/-- The issues with a composite and its children.  The order of the children of a random composite
says nothing about what is reached. -/
def compositeIssues (tree : Tree) (node : Node) (composite : Composite) : List Issue :=
  let children := node.children.filterMap tree.get?
  (if node.edges.isEmpty then [.compositeWithoutChildren node.name] else []) ++
    children.filterMap (neverFailIssue? node.name composite) ++
    if composite = .random then []
    else children.dropLast.filterMap (unreachableIssue? node.name)

/-- The issue with a decorator that counts accesses above a change of state. -/
def counterIssues (tree : Tree) (node : Node) (decorator : Decorator) : List Issue :=
  match decorator.accessLimit?.map AccessLimit.keyType, node.children.head?.bind tree.get? with
  | some .counterLimit, some child =>
      match child.kind with
      | .changeState _ => [.counterLimitBeforeChangeState node.name child.name]
      | _ => []
  | _, _ => []

/-- The issues of the second sweep with one node. -/
def flowIssues (tree : Tree) (node : Node) : List Issue :=
  match node.kind with
  | .composite composite => compositeIssues tree node composite
  | .decorator decorator => counterIssues tree node decorator
  | _ => []

end BehaviorTree.Compiler

namespace BehaviorTree.Tree

open BehaviorTree.Compiler

/-- The nodes that the states reach. -/
def reachedNodes (tree : Tree) : List Node :=
  tree.hierarchy.filterMap tree.get?

/-- Everything that is wrong with a tree, given the access keys that it may refer to. -/
def issues (tree : Tree) (sets : List AccessKeySet) : List Issue :=
  let nodes := tree.reachedNodes
  let names := nodes.map Node.name
  defaultStateIssues tree ++
    nodes.zipIdx.flatMap (fun (node, position) => nodeIssues tree sets names node position) ++
    nodes.flatMap (flowIssues tree)

/-- Compiles a tree. -/
def compile (tree : Tree) (sets : List AccessKeySet) (options : Options) : Report :=
  .ofIssues options (tree.issues sets)

end BehaviorTree.Tree
