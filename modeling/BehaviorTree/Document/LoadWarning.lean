import BehaviorTree.EditError

/-!
# Warnings of a load

Loading a document tolerates what is wrong inside it, and says what it has tolerated.
-/

namespace BehaviorTree.Document

/-- Something that a load has tolerated. -/
inductive LoadWarning where
  | droppedBehavior (index : Nat) (reason : String)
  | droppedHierarchy (index : Nat) (reason : String)
  | unresolvedEdge (id : Int)
  | rejectedEdge (parent child : Int) (reason : EditError)
  | unknownValue (node field value fallback : String)
  | missingValue (node field fallback : String)
  | legacyMigration (name : String)
  | synthesizedDefaultState (name : String)
deriving DecidableEq

namespace LoadWarning

/-- The message shown to authors. -/
def message : LoadWarning → String
  | droppedBehavior index reason => s!"dropped behavior record {index}: {reason}"
  | droppedHierarchy index reason => s!"dropped hierarchy entry {index}: {reason}"
  | unresolvedEdge id => s!"hierarchy references unknown behavior id {id}"
  | rejectedEdge parent child reason => s!"edge {parent} -> {child} rejected: {reason.message}"
  | unknownValue node field value fallback =>
      s!"'{value}' is not a valid {field} on '{node}', using {fallback}"
  | missingValue node field fallback => s!"'{node}' has no {field}, using {fallback}"
  | legacyMigration name => s!"legacy document: promoted root '{name}' to the default state"
  | synthesizedDefaultState name => s!"document has no states, created an empty '{name}' state"

/-- Whether the warning reports a repair of the document as a whole. -/
def isMigration : LoadWarning → Bool
  | legacyMigration _ => true
  | synthesizedDefaultState _ => true
  | _ => false

end LoadWarning

end BehaviorTree.Document
