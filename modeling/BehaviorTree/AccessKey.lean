import BehaviorTree.EditError
import BehaviorTree.Vocabulary

/-!
# Access keys

Behaviors that must not run at the same time share an access key.  Keys are kept in named sets; an
access limit decorator refers to a set and a key by their names.
-/

namespace BehaviorTree

open BehaviorTree.Number

/-- What an access key limits. -/
inductive AccessKeyType where
  /-- How many behaviors hold the key at once. -/
  | counterLimit
  /-- How long the key stays locked after an access. -/
  | timeLimit
deriving DecidableEq, Repr, Inhabited

instance : Vocabulary AccessKeyType where
  label := "AccessKeyType"
  all := [.counterLimit, .timeLimit]
  word
    | .counterLimit => "CounterLimit"
    | .timeLimit => "TimeLimit"

inductive AccessKey where
  | counterLimit (name : String) (maxAccessCount : Int32)
  | timeLimit (name : String) (interval : Single)
deriving DecidableEq

namespace AccessKey

def name : AccessKey → String
  | counterLimit name _ => name
  | timeLimit name _ => name

def type : AccessKey → AccessKeyType
  | counterLimit _ _ => .counterLimit
  | timeLimit _ _ => .timeLimit

/-- Equality with intervals compared as numbers. -/
def agrees : AccessKey → AccessKey → Bool
  | counterLimit left leftCount, counterLimit right rightCount =>
      left = right && leftCount = rightCount
  | timeLimit left leftInterval, timeLimit right rightInterval =>
      left = right && leftInterval.sameNumber rightInterval
  | _, _ => false

end AccessKey

/-- A named set of access keys, in order. -/
structure AccessKeySet where
  name : String
  keys : List AccessKey
deriving DecidableEq

namespace AccessKeySet

/-- The first key of a name. -/
def find (set : AccessKeySet) (name : String) : Option AccessKey :=
  set.keys.find? (·.name = name)

/-- The set with one more key, whatever its name. -/
def push (set : AccessKeySet) (key : AccessKey) : AccessKeySet :=
  { set with keys := set.keys ++ [key] }

/-- The set with one more key, if its name is neither empty nor taken. -/
def add (set : AccessKeySet) (key : AccessKey) : Except EditError AccessKeySet :=
  if key.name = "" then .error .emptyAccessKey
  else if (set.find key.name).isSome then .error (.duplicateAccessKey key.name)
  else .ok (set.push key)

/-- The set without the first key of a name. -/
def without (set : AccessKeySet) (name : String) : AccessKeySet :=
  { set with keys := set.keys.eraseP (·.name = name) }

/-- Equality with intervals compared as numbers. -/
def agrees (left right : AccessKeySet) : Bool :=
  left.name = right.name && left.keys.length = right.keys.length &&
    (left.keys.zip right.keys).all fun (leftKey, rightKey) => leftKey.agrees rightKey

/-- The first set of a name. -/
def named (sets : List AccessKeySet) (name : String) : Option AccessKeySet :=
  sets.find? (·.name = name)

end AccessKeySet

end BehaviorTree
