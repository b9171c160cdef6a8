import BehaviorTree.AccessKey
import BehaviorTree.Parameter

/-!
# Behavior nodes

A node has the properties that every behavior has, and a kind with the properties of that kind
alone.  Its children are ordered, and each attachment binds the parameters of the child.
-/

namespace BehaviorTree

open BehaviorTree.Number

/-! ## Named properties -/

inductive BehaviorType where
  | action
  | condition
  | decorator
  | composite
  | changeState
deriving DecidableEq, Repr

instance : Vocabulary BehaviorType where
  label := "BehaviorType"
  all := [.action, .condition, .decorator, .composite, .changeState]
  word
    | .action => "Action"
    | .condition => "Condition"
    | .decorator => "Decorator"
    | .composite => "Composite"
    | .changeState => "ChangeState"

inductive CompositeType where
  | sequence
  | concurrent
  | random
  | priority
  | loop
  | state
deriving DecidableEq, Repr

instance : Vocabulary CompositeType where
  label := "CompositeType"
  all := [.sequence, .concurrent, .random, .priority, .loop, .state]
  word
    | .sequence => "Sequence"
    | .concurrent => "Concurrent"
    | .random => "Random"
    | .priority => "Priority"
    | .loop => "Loop"
    | .state => "State"

/-- The name of a fresh composite. -/
def CompositeType.freshName : CompositeType → String
  | sequence => "NewSequenceSelector"
  | concurrent => "NewConcurrentSelector"
  | random => "NewRandomSelector"
  | priority => "NewPrioritySelector"
  | loop => "NewLoopSelector"
  | state => "NewState"

inductive DecoratorType where
  | default
  | accessLimit
deriving DecidableEq, Repr

instance : Vocabulary DecoratorType where
  label := "DecoratorType"
  all := [.default, .accessLimit]
  word
    | .default => "Default"
    | .accessLimit => "AccessLimit"

/-- How a behavior may run under a concurrent composite. -/
inductive ConcurrencyMode where
  | unlimited
  | single
deriving DecidableEq, Repr, Inhabited

instance : Vocabulary ConcurrencyMode where
  label := "ConcurrencyMode"
  all := [.unlimited, .single]
  word
    | .unlimited => "Unlimit"
    | .single => "Single"

/-- Where a priority selector continues. -/
inductive PriorityType where
  /-- Always at its first child. -/
  | highestPriority
  /-- At the child that was running. -/
  | runningNode
deriving DecidableEq, Repr, Inhabited

instance : Vocabulary PriorityType where
  label := "PriorityType"
  all := [.highestPriority, .runningNode]
  word
    | .highestPriority => "HighestPriority"
    | .runningNode => "RunningNode"

inductive FailurePolicy where
  | failOnOne
  | failOnAll
deriving DecidableEq, Repr

instance : Inhabited FailurePolicy := ⟨.failOnAll⟩

instance : Vocabulary FailurePolicy where
  label := "FailurePolicy"
  all := [.failOnOne, .failOnAll]
  word
    | .failOnOne => "FailOnOne"
    | .failOnAll => "FailOnAll"

inductive SuccessPolicy where
  | succeedOnOne
  | succeedOnAll
deriving DecidableEq, Repr

instance : Inhabited SuccessPolicy := ⟨.succeedOnAll⟩

instance : Vocabulary SuccessPolicy where
  label := "SuccessPolicy"
  all := [.succeedOnOne, .succeedOnAll]
  word
    | .succeedOnOne => "SucceedOnOne"
    | .succeedOnAll => "SucceedOnAll"

/-! ## Kinds -/

structure ConcurrentPolicy where
  failure : FailurePolicy := default
  success : SuccessPolicy := default
  breakOnConditionFailure : Bool := false
deriving DecidableEq, Repr

/-- A node that controls the flow between its children.  A state is a priority selector that can be
the root of a hierarchy. -/
inductive Composite where
  | sequence
  | priority (order : PriorityType)
  | concurrent (policy : ConcurrentPolicy)
  | random
  | loop (count : Int32)
  | state (order : PriorityType)
deriving DecidableEq

namespace Composite

/-- A composite of a type with its defaults. -/
def ofType : CompositeType → Composite
  | .sequence => sequence
  | .concurrent => concurrent {}
  | .random => random
  | .priority => priority default
  | .loop => loop 0
  | .state => state default

def type : Composite → CompositeType
  | sequence => .sequence
  | priority _ => .priority
  | concurrent _ => .concurrent
  | random => .random
  | loop _ => .loop
  | state _ => .state

def isState : Composite → Bool
  | state _ => true
  | _ => false

/-- Whether the composite stops at the first child that does not fail. -/
def isPriorityLike : Composite → Bool
  | priority _ => true
  | state _ => true
  | _ => false

end Composite

/-- What actions and conditions hold. -/
structure Leaf where
  parameters : ParameterSet := []
  /-- Whether the behavior has been marked as valid while debugging. -/
  debugValid : Bool := false
deriving DecidableEq

/-- A reference to an access key: the set by its class name, and the key in it. -/
structure AccessLimit where
  className : String
  accessKey : String
  keyType : AccessKeyType
deriving DecidableEq

inductive DecoratorKind where
  | default
  | accessLimit (limit : AccessLimit)
deriving DecidableEq

structure Decorator where
  kind : DecoratorKind
  /-- Whether a failure of the child counts as a success. -/
  neverFail : Bool := false
  debugValid : Bool := false
  parameters : ParameterSet := []
deriving DecidableEq

namespace Decorator

def type (decorator : Decorator) : DecoratorType :=
  match decorator.kind with
  | .default => .default
  | .accessLimit _ => .accessLimit

def accessLimit? (decorator : Decorator) : Option AccessLimit :=
  match decorator.kind with
  | .default => none
  | .accessLimit limit => some limit

end Decorator

inductive NodeKind where
  | action (leaf : Leaf)
  | condition (leaf : Leaf)
  | decorator (decorator : Decorator)
  | composite (composite : Composite)
  | changeState (destination : String)
deriving DecidableEq

namespace NodeKind

def type : NodeKind → BehaviorType
  | action _ => .action
  | condition _ => .condition
  | decorator _ => .decorator
  | composite _ => .composite
  | changeState _ => .changeState

/-- The name of a fresh node of the kind. -/
def freshName : NodeKind → String
  | action _ => "NewAction"
  | condition _ => "NewCondition"
  | decorator ⟨.default, _, _, _⟩ => "NewDecorator"
  | decorator ⟨.accessLimit _, _, _, _⟩ => "NewAccessLimitDecorator"
  | composite content => content.type.freshName
  | changeState _ => "NewChangeState"

/-- The definitions of a kind that carries parameters. -/
def parameters? : NodeKind → Option ParameterSet
  | action leaf => some leaf.parameters
  | condition leaf => some leaf.parameters
  | decorator content => some content.parameters
  | composite _ => none
  | changeState _ => none

/-- Other definitions, for a kind that carries parameters. -/
def withParameters (parameters : ParameterSet) : NodeKind → NodeKind
  | action leaf => action { leaf with parameters }
  | condition leaf => condition { leaf with parameters }
  | decorator content => .decorator { content with parameters }
  | kind => kind

/-- The debug mark of a kind that has one. -/
def debugValid? : NodeKind → Option Bool
  | action leaf => some leaf.debugValid
  | condition leaf => some leaf.debugValid
  | decorator content => some content.debugValid
  | composite _ => none
  | changeState _ => none

def isState : NodeKind → Bool
  | composite content => content.isState
  | _ => false

def isDecorator : NodeKind → Bool
  | decorator _ => true
  | _ => false

/-- Whether nodes of the kind never have children. -/
def isLeaf : NodeKind → Bool
  | action _ => true
  | condition _ => true
  | changeState _ => true
  | _ => false

end NodeKind

/-! ## Nodes -/

/-- The attachment of a child. -/
structure Edge where
  child : NodeId
  bindings : ParameterSet
deriving DecidableEq

/-- The edge with its bindings in step with the definitions. -/
def Edge.matched (edge : Edge) (definitions : ParameterSet) : Edge :=
  { edge with bindings := edge.bindings.matched definitions }

structure Node where
  name : String
  weight : Single := Single.one
  concurrency : ConcurrencyMode := default
  comment : String := ""
  kind : NodeKind
  edges : List Edge := []
deriving DecidableEq

namespace Node

/-- A fresh node of a kind. -/
def fresh (kind : NodeKind) : Node :=
  { name := kind.freshName, kind }

/-- A fresh state. -/
def state (name : String) : Node :=
  { name, kind := .composite (.ofType .state) }

def isState (node : Node) : Bool :=
  node.kind.isState

def isLeaf (node : Node) : Bool :=
  node.kind.isLeaf

def parameters? (node : Node) : Option ParameterSet :=
  node.kind.parameters?

def withParameters (node : Node) (parameters : ParameterSet) : Node :=
  { node with kind := node.kind.withParameters parameters }

def children (node : Node) : List NodeId :=
  node.edges.map Edge.child

/-- The position of the first edge to a child. -/
def indexOf? (node : Node) (child : NodeId) : Option Nat :=
  node.edges.findIdx? (·.child = child)

/-- The node without its edges to a child. -/
def detachedFrom (node : Node) (child : NodeId) : Node :=
  { node with edges := node.edges.filter (·.child ≠ child) }

/-- The numbers of the children that have one, separated by commas. -/
def childNumbers (node : Node) (number? : NodeId → Option Nat) : String :=
  ",".intercalate ((node.children.filterMap number?).map toString)

end Node

/-! ## Free properties -/

/-- A property that can be changed without any checks. -/
inductive Property where
  | concurrency (mode : ConcurrencyMode)
  | comment (text : String)
  | debugValid (valid : Bool)
  | neverFail (neverFail : Bool)
  | destination (state : String)
  | decoratorKind (kind : DecoratorKind)

/-- A kind with a property; a kind that does not have it stays as it is. -/
def NodeKind.withProperty (property : Property) : NodeKind → NodeKind
  | .action leaf =>
      match property with
      | .debugValid debugValid => .action { leaf with debugValid }
      | _ => .action leaf
  | .condition leaf =>
      match property with
      | .debugValid debugValid => .condition { leaf with debugValid }
      | _ => .condition leaf
  | .decorator content =>
      match property with
      | .debugValid debugValid => .decorator { content with debugValid }
      | .neverFail neverFail => .decorator { content with neverFail }
      | .decoratorKind kind => .decorator { content with kind }
      | _ => .decorator content
  | .changeState destination =>
      match property with
      | .destination state => .changeState state
      | _ => .changeState destination
  | .composite content => .composite content

/-- A node with a property. -/
def Node.withProperty (node : Node) : Property → Node
  | .concurrency concurrency => { node with concurrency }
  | .comment comment => { node with comment }
  | property => { node with kind := node.kind.withProperty property }

end BehaviorTree
