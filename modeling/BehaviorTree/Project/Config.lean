import BehaviorTree.Files.Path
import BehaviorTree.Yaml.Document

/-!
# Configurations

A project may say where its documents are and how strictly they are compiled.  Settings that are not
given keep their defaults, and settings that are not known are passed over.
-/

namespace BehaviorTree.Project

structure Config where
  version : Option String := none
  treesDirectory : String := "trees"
  keysDirectory : String := "access_keys"
  /-- Whether warnings fail a compilation too. -/
  warningsAsErrors : Bool := false
  /-- Whether the access keys are compiled before the trees that use them. -/
  checkAccessKeys : Bool := true
deriving DecidableEq

namespace Config

/-- Where the configuration of a project is. -/
def path : String := ".btree/config.yaml"

/-- The text of a configuration that says what the defaults are. -/
def initialText : String :=
  "# Behavior tree project configuration\n" ++
  "\n" ++
  "version: \"1\"\n" ++
  "\n" ++
  "trees_dir: trees\n" ++
  "access_keys_dir: access_keys\n" ++
  "\n" ++
  "compile:\n" ++
  "  warnings_as_errors: false\n" ++
  "  check_access_keys: true\n"

/-! ## Reading -/

/-- A text; every scalar is one as it is written. -/
def text? : Yaml.Node → Option String
  | .scalar _ _ text => some text
  | _ => none

/-- The words that stand for nothing. -/
def nullWords : List String :=
  ["~", "null", "Null", "NULL"]

/-- The tag of nothing. -/
def nullTag : String := "tag:yaml.org,2002:null"

/-- A text that may be absent.  Only a plain scalar is; one that is tagged is a text, unless its tag
says that it is nothing. -/
def optionalText? : Yaml.Node → Option (Option String)
  | .scalar .plain none text => some (if text = "" || text ∈ nullWords then none else some text)
  | .scalar .plain (some tag) text =>
      if tag = nullTag then
        if text ∈ nullWords then some none else none
      else some (some text)
  | .scalar _ _ text => some (some text)
  | _ => none

/-- The tag of a switch. -/
def switchTag : String := "tag:yaml.org,2002:bool"

/-- A switch; between quotes it would be a text. -/
def switch? : Yaml.Node → Option Bool
  | .scalar style tag text =>
      if style = .plain || (style = .literal && tag = some switchTag) then
        if text ∈ ["true", "True", "TRUE"] then some true
        else if text ∈ ["false", "False", "FALSE"] then some false
        else none
      else none
  | _ => none

/-- The members of a mapping; a missing one has none. -/
def members? : Yaml.Node → Option (List (Yaml.Node × Yaml.Node))
  | .mapping members => some members
  | .scalar .plain _ "" => some []
  | _ => none

/-- A setting: its name, and how its value changes a configuration. -/
structure Setting where
  name : String
  change : Yaml.Document → Yaml.Node → Config → Option Config

/-- Applies settings to a configuration.  A known one may be given once. -/
def apply (settings : List Setting) (document : Yaml.Document) (node : Yaml.Node)
    (config : Config) : Option Config := do
  let members ← (← members? node).mapM fun (key, value) =>
    return (← text? (← document.resolve key), value)
  let given := members.map Prod.fst
  if settings.any fun setting => 1 < given.count setting.name then none
  members.foldlM (fun config (name, value) =>
    match settings.find? (·.name = name) with
    | some setting => do setting.change document (← document.resolve value) config
    | none => some config) config

def compileSettings : List Setting := [
  ⟨"warnings_as_errors", fun _ value config => do
    return { config with warningsAsErrors := ← switch? value }⟩,
  ⟨"check_access_keys", fun _ value config => do
    return { config with checkAccessKeys := ← switch? value }⟩]

def settings : List Setting := [
  ⟨"version", fun _ value config => do
    return { config with version := ← optionalText? value }⟩,
  ⟨"trees_dir", fun _ value config => do
    return { config with treesDirectory := ← text? value }⟩,
  ⟨"access_keys_dir", fun _ value config => do
    return { config with keysDirectory := ← text? value }⟩,
  ⟨"compile", apply compileSettings⟩]

/-- The configuration of a text. -/
def read? (text : String) : Option Config := do
  let document ← Yaml.Document.read? text
  apply settings document document.root {}

/-- The configuration with its directories below the root of a project. -/
def below (root : String) (config : Config) : Config :=
  { config with
    treesDirectory := Path.join root config.treesDirectory
    keysDirectory := Path.join root config.keysDirectory }

end Config

end BehaviorTree.Project
