import BehaviorTree.Project.Invocation
import BehaviorTree.Project.Session
import BehaviorTree.Tree.Outline

/-!
# Running commands
-/

namespace BehaviorTree.Project

open BehaviorTree.Compiler Session

/-! ## Compiling -/

def issueLine (issue : Issue) : String :=
  match issue.severity with
  | .error => s!"  error: {issue.message}"
  | .warning => s!"  warning: {issue.message}"

/-- What is printed of a report. -/
def reportLines (label : String) (report : Report) : List String :=
  let status := if report.passed then "ok" else "FAILED"
  let errors := report.count .error
  let warnings := report.count .warning
  s!"{label}: {status} ({errors} errors, {warnings} warnings)" :: report.issues.map issueLine

def Config.options (config : Config) : Options where
  warningsAsErrors := config.warningsAsErrors

/-- Compiles a set of access keys and prints the report. -/
def reportKeys (options : Options) (label : String) (set : AccessKeySet) : Session Report := do
  let report := set.compile options
  log (Journal.ofKeyReport set report)
  say (reportLines label report)
  return report

/-- Loads a set of access keys for the trees that use it, and compiles it if it is to be checked. -/
def prepareKeys (config : Config) (path : String) : Session (AccessKeySet × Option Report) := do
  let set ← loadKeys path
  if config.checkAccessKeys then
    return (set, some (← reportKeys config.options s!"access keys {set.name}" set))
  else
    return (set, none)

/-- Loads a tree, compiles it and prints the report. -/
def reportTree (options : Options) (sets : List AccessKeySet) (path : String) : Session Report := do
  let loaded ← loadTree path
  let report := loaded.tree.compile sets options
  log (Journal.ofTreeReport loaded.tree report)
  say (reportLines loaded.tree.name report)
  return report

/-- How many reports have not passed. -/
def failures (reports : List Report) : Nat :=
  reports.countP fun report => !report.passed

/-- Fails if a count is not zero. -/
def failOn (count : Nat) (failure : Nat → CommandFailure) : Session Unit :=
  if 0 < count then throw (failure count) else return

def runCompile (root : String) (trees : List String) : Session Unit := do
  let config ← loadConfig root
  let trees ← if trees.isEmpty then documentsIn config.treesDirectory else pure trees
  if trees.isEmpty then
    say [s!"No behavior trees found in {config.treesDirectory}"]
  else
    let keys ← (← documentsIn config.keysDirectory).mapM (prepareKeys config)
    let reports ← trees.mapM (reportTree config.options (keys.map Prod.fst))
    failOn (failures (keys.filterMap Prod.snd) + failures reports) .documentsFailed

def runCheckKeys (root : String) (paths : List String) : Session Unit := do
  let config ← loadConfig root
  let paths ← if paths.isEmpty then documentsIn config.keysDirectory else pure paths
  let reports ← paths.mapM fun path => do
    let set ← loadKeys path
    reportKeys config.options set.name set
  failOn (failures reports) .keySetsFailed

/-! ## Showing and migrating -/

/-- The outlines of nodes, one step to the right. -/
def outlineLines (tree : Tree) (ids : List NodeId) : List String :=
  (ids.flatMap tree.outline).map fun entry =>
    String.ofList (List.replicate (2 * (entry.depth + 1)) ' ') ++ entry.text

def warningLines (loaded : Document.Loaded) : List String :=
  loaded.warnings.map fun warning => "  " ++ warning.message

/-- Lines under a heading, or nothing at all without lines. -/
def sectionLines (heading : String) (lines : List String) : List String :=
  if lines.isEmpty then [] else "" :: heading :: lines

/-- What is printed of a tree. -/
def inspectLines (loaded : Document.Loaded) : List String :=
  let tree := loaded.tree
  [s!"Tree: {tree.name}",
    s!"  Default state: {tree.defaultState}",
    s!"  Nodes: {tree.pool.length}",
    ""] ++
    outlineLines tree tree.states ++
    sectionLines "Detached:" (outlineLines tree tree.extras) ++
    sectionLines "Load warnings:" (warningLines loaded)

def runInspect (path : String) : Session Unit := do
  say (inspectLines (← loadTree path))

def runMigrate (path : String) (out : Option String) : Session Unit := do
  let loaded ← loadTree path
  let target := out.getD path
  say (warningLines loaded)
  saveTree target loaded.tree
  say [s!"Migrated {path} -> {target}"]

/-! ## Scaffolding -/

def runNew (root name : String) : Session Unit := do
  if !Text.isIdentifier name then throw (.invalidTreeName name)
  let config ← loadConfig root
  let path := Path.join config.treesDirectory (name ++ ".json")
  if (← files).contains path then throw (.treeExists path)
  saveTree path (Tree.new name)
  say [s!"Created {path}"]

def runInit (root : String) : Session Unit := do
  let path := Path.join root Config.path
  filing .file (Filing.ensurePath (Path.join root ".btree"))
  if !(← files).contains path then
    filing .file (Filing.writeFile path Config.initialText)
  let config ← loadConfig root
  filing .file (Filing.ensurePath config.treesDirectory)
  filing .file (Filing.ensurePath config.keysDirectory)
  say [
    s!"Initialized behavior tree project in {root}",
    "",
    "Created:",
    s!"  {Config.path}",
    s!"  {config.treesDirectory}",
    s!"  {config.keysDirectory}",
    "",
    "Next steps:",
    "  1. Create a tree: btree new <NAME>",
    "  2. Compile: btree compile"]

/-- What is printed where no command is given. -/
def usageLines : List String := [
  "btree - Behavior Tree Authoring",
  "",
  "Usage: btree <COMMAND>",
  "",
  "Commands:",
  "  compile     Compile behavior trees",
  "  check-keys  Compile access-key sets",
  "  inspect     Print a tree",
  "  migrate     Rewrite a document in the current format",
  "  new         Create a new tree",
  "  init        Initialize a new project",
  "",
  "Run 'btree --help' for more information."]

/-! ## Command lines -/

/-- The path of the working directory. -/
def workingPath (files : Files) : String :=
  "/" ++ "/".intercalate files.workingDirectory

def runCommand (root : String) : Option Command → Session Unit
  | none => say usageLines
  | some (.compile trees) => runCompile root trees
  | some (.checkKeys paths) => runCheckKeys root paths
  | some (.inspect tree) => runInspect tree
  | some (.migrate tree out) => runMigrate tree out
  | some (.new name) => runNew root name
  | some .init => runInit root

/-- How a run ends: with a failure or without one, and with the desk as it is left. -/
structure Outcome where
  failure : Option CommandFailure
  desk : Desk

/-- Runs an invocation on files. -/
def Invocation.run (invocation : Invocation) (files : Files) : Outcome :=
  let root := invocation.project.getD (workingPath files)
  match (runCommand root invocation.command).run { files } with
  | (.ok _, desk) => ⟨none, desk⟩
  | (.error failure, desk) => ⟨some failure, desk⟩

/-- The name and number of the program. -/
def versionLine : String := "btree 0.1.0"

end BehaviorTree.Project
