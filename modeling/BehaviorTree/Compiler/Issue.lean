import BehaviorTree.AccessKey

/-!
# Compile issues

A compile pass reports everything it finds, in the order in which it comes to it, and never stops at
an issue.  Whether an issue is an error is a property of the issue alone; whether a warning fails
the pass is up to its options.
-/

namespace BehaviorTree.Compiler

open BehaviorTree.Number

inductive Severity where
  /-- Blocks code generation. -/
  | error
  | warning
deriving DecidableEq, Repr

/-- Something that is wrong with a tree or with a set of access keys. -/
inductive Issue where
  | invalidDefaultState (tree : String)
  | emptyName
  | duplicateName (name : String) (count : Nat)
  | invalidWeight (node : String) (weight : Single)
  | emptyParameterName (node : String)
  | duplicateParameter (node parameter : String) (count : Nat)
  | decoratorWithoutChild (node : String)
  | decoratorWithManyChildren (node : String) (count : Nat)
  | unknownAccessKey (node key : String)
  | unknownAccessKeySet (node className : String)
  | keyTypeMismatch (node key : String) (expected actual : AccessKeyType)
  | compositeWithoutChildren (node : String)
  | unknownDestinationState (node destination : String)
  | neverFailUnderPriority (decorator parent : String)
  | neverFailUnderSucceedOnOne (decorator parent : String)
  | unreachableAfterChangeState (composite changeState : String)
  | counterLimitBeforeChangeState (decorator child : String)
  | emptyAccessKeyName (set : String)
  | duplicateAccessKey (set key : String) (count : Nat)
  | invalidMaxAccessCount (set key : String) (value : Int32)
  | invalidTimeInterval (set key : String) (value : Single)
deriving DecidableEq

namespace Issue

def severity : Issue → Severity
  | neverFailUnderPriority _ _ => .warning
  | neverFailUnderSucceedOnOne _ _ => .warning
  | unreachableAfterChangeState _ _ => .warning
  | counterLimitBeforeChangeState _ _ => .warning
  | _ => .error

/-- The message shown to authors. -/
def message : Issue → String
  | invalidDefaultState tree => s!"Invalid DefaultState for BehaviorTree : {tree}."
  | emptyName => "There is a Behavior node with empty name."
  | duplicateName name count =>
      s!"There are {count} behaviors node in BehaviorTree with same name ({name})."
  | invalidWeight node _ =>
      s!"Weight of Behavior node {node} is invalid (must be greater than 0)."
  | emptyParameterName node =>
      s!"Invalid parameter of Behavior node {node} (can not be null or empty)."
  | duplicateParameter node parameter count =>
      s!"There are {count} parameters for behaviors node {node} with same name ({parameter})."
  | decoratorWithoutChild node => s!"Decorator node {node} has not any children."
  | decoratorWithManyChildren node count =>
      s!"Decorator node {node} has {count} children (must have exactly one)."
  | unknownAccessKey node key =>
      s!"The provided AccessKey '{key}' for behavior node '{node}' does not exist."
  | unknownAccessKeySet node className =>
      s!"Invalid AccessKey for behavior node '{node}' (no SharedAccessKeys named '{className}')."
  | keyTypeMismatch node key expected actual =>
      s!"AccessKey '{key}' of behavior node '{node}' is {word actual} " ++
        s!"but the node expects {word expected}."
  | compositeWithoutChildren node => s!"Composite node {node} has not any children."
  | unknownDestinationState node destination =>
      s!"ChangeState '{node}' points to state '{destination}' that does not exist."
  | neverFailUnderPriority decorator parent =>
      s!"Decorator '{decorator}' with 'NeverFail' property setted to 'true' is child of " ++
        s!"PrioritySelector '{parent}'. This cause next children unreachable."
  | neverFailUnderSucceedOnOne decorator parent =>
      s!"Decorator '{decorator}' with 'NeverFail' property setted to 'true' is child of " ++
        s!"ConcurrentSelector '{parent}' with 'SuccessPolicy' property setted to " ++
        "'SucceedOnOne'. This cause ConcurrentSelector never fail."
  | unreachableAfterChangeState composite changeState =>
      s!"There are unreachable behaviors in Composite '{composite}', " ++
        s!"after ChangeState '{changeState}'"
  | counterLimitBeforeChangeState decorator child =>
      s!"AccessLimitDecorator '{decorator}' with CounterLimit accesskey has a ChangeState child " ++
        s!"'{child}'. CounterLimit key will be unlocked after change state."
  | emptyAccessKeyName set =>
      s!"There is an AccessKey with empty name in SharedAccessKeys {set}."
  | duplicateAccessKey set key count =>
      s!"There are {count} AccessKeys in SharedAccessKeys {set} with same name ({key})."
  | invalidMaxAccessCount set key _ =>
      s!"MaxAccessCount of CounterLimit AccessKey '{key}' in {set} is invalid " ++
        "(must be greater than 0)."
  | invalidTimeInterval set key _ =>
      s!"TimeInterval of TimeLimit AccessKey '{key}' in {set} is invalid (must be greater than 0)."

end Issue

structure Options where
  /-- Whether a warning fails the pass too. -/
  warningsAsErrors : Bool := false
deriving DecidableEq

/-- The outcome of a pass. -/
structure Report where
  passed : Bool
  issues : List Issue
deriving DecidableEq

namespace Report

/-- The report of the issues that a pass has found. -/
def ofIssues (options : Options) (issues : List Issue) : Report where
  passed := issues.all fun issue => issue.severity = .warning && !options.warningsAsErrors
  issues := issues

/-- How many issues of a severity there are. -/
def count (report : Report) (severity : Severity) : Nat :=
  report.issues.countP (·.severity = severity)

end Report

end BehaviorTree.Compiler
