import BehaviorTree.EditError
import BehaviorTree.Vocabulary

/-!
# Parameters

A node defines parameters, and each of its attachments to a parent binds them.  Definitions and
bindings are both lists of parameters.  `matched` brings bindings in step with definitions;
documents may hold repeated and empty names, so everything here goes by the first parameter of a
name.
-/

namespace BehaviorTree

/-- The type of a parameter's value. -/
inductive ParameterType where
  | int
  | bool
  | float
  | string
deriving DecidableEq, Repr, Inhabited

namespace ParameterType

instance : Vocabulary ParameterType where
  label := "ParameterType"
  all := [.int, .bool, .float, .string]
  word
    | .int => "Int"
    | .bool => "Bool"
    | .float => "Float"
    | .string => "String"

/-- The type as signatures write it. -/
def keyword : ParameterType → String
  | int => "int"
  | bool => "bool"
  | float => "float"
  | string => "string"

/-- The value of a parameter that is defined without one. -/
def defaultValue : ParameterType → String
  | int => "0"
  | bool => "false"
  | float => "0"
  | string => ""

end ParameterType

structure Parameter where
  name : String
  type : ParameterType
  value : String
deriving DecidableEq, Repr

namespace Parameter

/-- A parameter with the default value of its type. -/
def ofType (name : String) (type : ParameterType) : Parameter :=
  ⟨name, type, type.defaultValue⟩

/-- The parameter in a signature, such as `int count`. -/
def signature (parameter : Parameter) : String :=
  s!"{parameter.type.keyword} {parameter.name}"

/-- The parameter with its value, such as `count = 3`. -/
def display (parameter : Parameter) : String :=
  s!"{parameter.name} = {parameter.value}"

end Parameter

/-- Parameters in order. -/
abbrev ParameterSet := List Parameter

namespace ParameterSet

def names (parameters : ParameterSet) : List String :=
  parameters.map Parameter.name

/-- The first parameter of a name. -/
def find (parameters : ParameterSet) (name : String) : Option Parameter :=
  parameters.find? (·.name = name)

def defines (parameters : ParameterSet) (name : String) : Bool :=
  (find parameters name).isSome

/-- One more parameter, if its name is neither empty nor taken. -/
def add (parameters : ParameterSet) (parameter : Parameter) : Except EditError ParameterSet :=
  if parameter.name = "" then .error .emptyParameterName
  else if defines parameters parameter.name then .error (.duplicateParameter parameter.name)
  else .ok (parameters ++ [parameter])

/-- The parameters without the first one of a name. -/
def without (parameters : ParameterSet) (name : String) : ParameterSet :=
  parameters.eraseP (·.name = name)

/-- The first parameter of a name takes a new value. -/
def assign (name value : String) : ParameterSet → ParameterSet
  | [] => []
  | parameter :: rest =>
      if parameter.name = name then { parameter with value } :: rest
      else parameter :: assign name value rest

/-- The bindings whose names are defined, each with the type of its definition. -/
def retyped (definitions bindings : ParameterSet) : ParameterSet :=
  bindings.filterMap fun binding =>
    (find definitions binding.name).map fun definition => { binding with type := definition.type }

/-- Appends every definition whose name is not bound yet. -/
def completed (bindings : ParameterSet) (definitions : ParameterSet) : ParameterSet :=
  definitions.foldl (fun bindings definition =>
    if defines bindings definition.name then bindings else bindings ++ [definition]) bindings

/-- Bindings brought in step with definitions: what is not defined is dropped, what is bound keeps
its value and takes the defined type, and what is not bound is appended with its default. -/
def matched (bindings definitions : ParameterSet) : ParameterSet :=
  completed (retyped definitions bindings) definitions

/-- Texts in parentheses, or nothing at all without texts. -/
def parenthesized (parts : List String) : String :=
  if parts.isEmpty then "" else "(" ++ ", ".intercalate parts ++ ")"

/-- The parameters of a signature, such as `(int count, bool loud)`. -/
def signature (parameters : ParameterSet) : String :=
  parenthesized (parameters.map Parameter.signature)

/-- The parameters with their values, such as `(count = 3, loud = true)`. -/
def display (parameters : ParameterSet) : String :=
  parenthesized (parameters.map Parameter.display)

end ParameterSet

end BehaviorTree
