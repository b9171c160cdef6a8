import BehaviorTree.Files.Basic
import BehaviorTree.Journal
import BehaviorTree.Project.Config

/-!
# Sessions

A command works on the files of a project.  It prints lines and keeps a journal, in the order in
which things happen, and it ends in success or with one failure; what it did before that stays done.
-/

namespace BehaviorTree.Project

/-- Why a command fails. -/
inductive CommandFailure where
  | configUnreadable (path : String)
  | configMalformed (path : String)
  | directoryUnreadable (path : String)
  | treeUnloadable (path : String)
  | keysUnloadable (path : String)
  | treeUnsaved (path : String)
  | invalidTreeName (name : String)
  | treeExists (path : String)
  | documentsFailed (count : Nat)
  | keySetsFailed (count : Nat)
  | file (failure : FileError)
deriving DecidableEq

/-- The message shown to authors. -/
def CommandFailure.message : CommandFailure → String
  | configUnreadable path => s!"Failed to read config from {path}"
  | configMalformed path => s!"Failed to parse config from {path}"
  | directoryUnreadable path => s!"Failed to read directory {path}"
  | treeUnloadable path => s!"Failed to load tree from {path}"
  | keysUnloadable path => s!"Failed to load access keys from {path}"
  | treeUnsaved path => s!"Failed to save tree to {path}"
  | invalidTreeName name => s!"'{name}' is not a valid tree name"
  | treeExists path => s!"{path} already exists"
  | documentsFailed count => s!"{count} document(s) failed to compile"
  | keySetsFailed count => s!"{count} access-key set(s) failed to compile"
  | file failure => failure.message

/-- What a command has put out. -/
inductive Output where
  | line (text : String)
  | entry (entry : Entry)
deriving DecidableEq

/-- The files that a command works on, and what it has put out so far. -/
structure Desk where
  files : Files
  output : List Output := []

/-- A part of a command. -/
abbrev Session (α : Type) := ExceptT CommandFailure (StateM Desk) α

namespace Session

def put (output : List Output) : Session Unit :=
  modify fun desk => { desk with output := desk.output ++ output }

def say (lines : List String) : Session Unit :=
  put (lines.map .line)

def log (entries : List Entry) : Session Unit :=
  put (entries.map .entry)

def files : Session Files :=
  return (← get).files

/-- A step on the files, with its failures told in terms of the command. -/
def filing {α : Type} (failure : FileError → CommandFailure) (step : Filing α) :
    Session α := do
  let desk ← get
  let (answer, files) := step.run desk.files
  set { desk with files }
  match answer with
  | .ok result => return result
  | .error reason => throw (failure reason)

/-! ## Documents -/

/-- The name of a tree that has none: that of its file. -/
def named (path : String) (tree : Tree) : Tree :=
  match Path.fileName? path with
  | some name => if tree.name = "" then { tree with name := Path.stem name } else tree
  | none => tree

/-- Loads the tree of a file. -/
def loadTree (path : String) : Session Document.Loaded := do
  match (← files).read path with
  | .error _ => throw (.treeUnloadable path)
  | .ok text =>
      match Tree.load text with
      | .error _ => throw (.treeUnloadable path)
      | .ok loaded =>
          log (Journal.ofLoaded loaded)
          return { loaded with tree := named path loaded.tree }

/-- Saves a tree to a file. -/
def saveTree (path : String) (tree : Tree) : Session Unit := do
  log (Journal.ofDocument tree)
  filing (fun _ => .treeUnsaved path) (Filing.write path tree.save)
  log (Journal.ofSaved path tree.save)

/-- Loads the set of access keys of a file. -/
def loadKeys (path : String) : Session AccessKeySet := do
  match (← files).read path with
  | .error _ => throw (.keysUnloadable path)
  | .ok text =>
      match AccessKeySet.load text with
      | .error _ => throw (.keysUnloadable path)
      | .ok loaded =>
          log (Journal.ofKeys loaded)
          return loaded.set

/-- The document files directly in a directory, in the order of their names; a directory that does
not exist has none. -/
def documentsIn (directory : String) : Session (List String) := do
  let files ← files
  if !files.contains directory then return []
  match files.list directory with
  | .error _ => throw (.directoryUnreadable directory)
  | .ok names =>
      let documents := names.filter fun name => Path.extension? name = some "json"
      return (documents.map (Path.join directory)).filter files.isFile

/-- The configuration of a project. -/
def loadConfig (root : String) : Session Config := do
  let files ← files
  let path := Path.join root Config.path
  let config ← do
    if files.contains path then
      match files.read path with
      | .error _ => throw (.configUnreadable path)
      | .ok text =>
          match Config.read? text with
          | none => throw (.configMalformed path)
          | some config => pure config
    else pure {}
  let config := config.below root
  log [⟨.debug, "Loaded project config",
    [("version", Text.quoted (config.version.getD "-")), ("trees", config.treesDirectory),
      ("access_keys", config.keysDirectory)]⟩]
  return config

end Session

end BehaviorTree.Project
