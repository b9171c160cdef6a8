import BehaviorTree.Compiler.Issue
import BehaviorTree.Compiler.NameFault

/-!
# Compiling access keys
-/

namespace BehaviorTree.Compiler

/-- The issue with the name of the key at a position, among the names of its set. -/
def keyNameIssues (set : String) (names : List String) (name : String) (position : Nat) :
    List Issue :=
  match nameFault? names name position with
  | none => []
  | some .empty => [.emptyAccessKeyName set]
  | some (.repeated count) => [.duplicateAccessKey set name count]

/-- The issue with the limit of a key.  An interval that is no number at all is let through. -/
def keyLimitIssues (set : String) : AccessKey → List Issue
  | .counterLimit name maxAccessCount =>
      if maxAccessCount ≤ 0 then [.invalidMaxAccessCount set name maxAccessCount] else []
  | .timeLimit name interval =>
      if interval.isAtMostZero then [.invalidTimeInterval set name interval] else []

end BehaviorTree.Compiler

namespace BehaviorTree.AccessKeySet

open BehaviorTree.Compiler

def names (set : AccessKeySet) : List String :=
  set.keys.map AccessKey.name

/-- Everything that is wrong with a set of access keys. -/
def issues (set : AccessKeySet) : List Issue :=
  set.keys.zipIdx.flatMap fun (key, position) =>
    keyNameIssues set.name set.names key.name position ++ keyLimitIssues set.name key

/-- Compiles a set of access keys. -/
def compile (set : AccessKeySet) (options : Options) : Report :=
  .ofIssues options set.issues

end BehaviorTree.AccessKeySet
