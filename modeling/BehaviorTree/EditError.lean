import BehaviorTree.NodeId
import BehaviorTree.Number.Numeral

/-!
# Refused edits
-/

namespace BehaviorTree

open BehaviorTree.Number

/-- Why an edit is refused. -/
inductive EditError where
  | unknownNode (id : NodeId)
  | cycle (parent child : NodeId)
  | leafNode (name : String)
  | decoratorOccupied (name : String)
  | stateAsChild (name : String)
  | stateNode (name : String)
  | notAComposite (name : String)
  | stateKindChange (name : String)
  | notAChild (parent child : NodeId)
  | indexOutOfRange (index length : Nat)
  | invalidName (name : String)
  | duplicateStateName (name : String)
  | unknownState (name : String)
  | notAState (id : NodeId)
  | lastState
  | invalidWeight (weight : Single)
  | noParameters (name : String)
  | emptyParameterName
  | duplicateParameter (name : String)
  | unknownParameter (name : String)
  | emptyAccessKey
  | duplicateAccessKey (name : String)
  | inHierarchy (name : String)
deriving DecidableEq, Repr

namespace EditError

/-- The message shown to authors. -/
def message : EditError → String
  | unknownNode id => s!"unknown node {id.display}"
  | cycle parent child =>
      s!"attaching {child.display} under {parent.display} would create a cycle"
  | leafNode name => s!"behavior node '{name}' is a leaf and can not have children"
  | decoratorOccupied name => s!"decorator '{name}' already has a child"
  | stateAsChild name => s!"state '{name}' can not be attached as a child"
  | stateNode name => s!"state '{name}' can only be created with add_state"
  | notAComposite name => s!"behavior node '{name}' is not a composite"
  | stateKindChange name => s!"composite '{name}' can not change into or out of a state"
  | notAChild parent child => s!"{child.display} is not a child of {parent.display}"
  | indexOutOfRange index length => s!"child index {index} out of range (len {length})"
  | invalidName name => s!"'{name}' is not a valid identifier"
  | duplicateStateName name => s!"a state named '{name}' already exists"
  | unknownState name => s!"there is no state named '{name}'"
  | notAState id => s!"{id.display} is not a state"
  | lastState => "the last state of a behavior tree can not be removed"
  | invalidWeight weight => s!"weight must be greater than 0 (got {weight.display})"
  | noParameters name => s!"behavior node '{name}' does not carry parameters"
  | emptyParameterName => "parameter name can not be empty"
  | duplicateParameter name => s!"a parameter named '{name}' already exists"
  | unknownParameter name => s!"there is no parameter named '{name}'"
  | emptyAccessKey => "access key name can not be empty"
  | duplicateAccessKey name => s!"an access key named '{name}' already exists"
  | inHierarchy name => s!"behavior node '{name}' is in the hierarchy and can not be deleted"

end EditError

end BehaviorTree
