import BehaviorTree.Compiler.KeyCheck
import BehaviorTree.Compiler.TreeCheck
import BehaviorTree.Document.KeyText
import BehaviorTree.Document.TreeText
import BehaviorTree.Text.Terminal

/-!
# The journal

What the library does is told as entries of a journal: a message with named fields.  The entries of
an operation follow from what it was given and what it answered, so the operations themselves know
nothing of them.
-/

namespace BehaviorTree

inductive Level where
  | debug
  | info
  | warning
  | error
deriving DecidableEq, Repr

namespace Level

def word : Level → String
  | debug => "DEBUG"
  | info => "INFO"
  | warning => "WARN"
  | error => "ERROR"

def rank : Level → Nat
  | debug => 0
  | info => 1
  | warning => 2
  | error => 3

end Level

/-- An entry of the journal. -/
structure Entry where
  level : Level
  message : String
  fields : List (String × String) := []
deriving DecidableEq

/-- The line of an entry, such as `INFO Added state state=Combat`.  Its message is made safe for
terminals; a field shows its value as it is. -/
def Entry.line (entry : Entry) : String :=
  " ".intercalate
    (entry.level.word :: Text.disarmed entry.message ::
      entry.fields.map fun (name, value) => name ++ "=" ++ value)

namespace Journal

open BehaviorTree.Compiler BehaviorTree.Document

/-! ## Trees -/

/-- Refusing a child that would close a cycle. -/
def ofRefusal (tree : Tree) : EditError → List Entry
  | .cycle parent child =>
      let name (id : NodeId) := ((tree.get? id).map Node.name).getD ""
      [⟨.debug, "Rejected cyclic attach", [("parent", name parent), ("child", name child)]⟩]
  | _ => []

/-- Attaching a child. -/
def ofAttach {α : Type} (tree : Tree) : Except EditError α → List Entry
  | .ok _ => []
  | .error refusal => ofRefusal tree refusal

/-- Deleting a node. -/
def ofDeleted (id : NodeId) (node : Node) : List Entry :=
  [⟨.debug, "Deleted behavior node", [("node", node.name), ("id", id.display)]⟩]

/-- Removing a state from a tree with the given default state. -/
def ofRemovedState (defaultState : String) (node : Node) (tree : Tree) : List Entry :=
  if node.name = defaultState then
    [⟨.info, "Default state removed, falling back to first state",
      [("removed", node.name), ("default_state", tree.defaultState)]⟩]
  else []

/-- An edit of a tree, with its outcome. -/
def ofEdit (before : Tree) (edit : Edit) (outcome : Except EditError Answer × Tree) : List Entry :=
  match edit, outcome.1 with
  | .addNode node, .ok (.id id) =>
      [⟨.debug, "Added behavior node", [("node", node.name), ("id", id.display)]⟩]
  | .deleteNode id, .ok (.node node) => ofDeleted id node
  | .addState name, .ok _ => [⟨.info, "Added state", [("state", name)]⟩]
  | .removeState _, .ok (.node node) => ofRemovedState before.defaultState node outcome.2
  | .addChild _ _ _, answer => ofAttach before answer
  | .insertChild _ _ _ _, answer => ofAttach before answer
  | _, _ => []

/-! ## Documents -/

/-- Writing the document of a tree. -/
def ofDocument (tree : Tree) : List Entry :=
  let document := tree.toDocument
  [⟨.debug, "Flattened behavior tree",
    [("tree", document.name), ("behaviors", toString document.behaviors.length),
      ("parents", toString document.hierarchy.length)]⟩]

/-- A warning of a load. -/
def ofWarning (tree : Tree) (warning : LoadWarning) : List Entry :=
  let refused :=
    match warning with
    | .rejectedEdge _ _ refusal => ofRefusal tree refusal
    | _ => []
  refused ++ [⟨if warning.isMigration then .info else .warning, warning.message, []⟩]

/-- Loading a tree. -/
def ofLoaded (loaded : Loaded) : List Entry :=
  loaded.warnings.flatMap (ofWarning loaded.tree) ++
    [⟨.debug, "Reconstructed behavior tree",
      [("tree", loaded.tree.name), ("behaviors", toString loaded.tree.pool.length),
        ("states", toString loaded.tree.states.length),
        ("warnings", toString loaded.warnings.length)]⟩]

/-- Loading a set of access keys. -/
def ofKeys (loaded : LoadedKeys) : List Entry :=
  loaded.skipped.map (fun key =>
    ⟨.warning, "Skipped access key",
      [("set", loaded.set.name), ("index", toString key.index), ("error", key.reason)]⟩) ++
    [⟨.debug, "Loaded access keys",
      [("set", loaded.set.name), ("keys", toString loaded.set.keys.length)]⟩]

/-- Writing a document to a file. -/
def ofSaved (path text : String) : List Entry :=
  [⟨.debug, "Saved document", [("path", path), ("bytes", toString text.utf8ByteSize)]⟩]

/-! ## Compiling -/

def ofIssue (issue : Issue) : Entry where
  level :=
    match issue.severity with
    | .error => .error
    | .warning => .warning
  message := issue.message

/-- Compiling a tree. -/
def ofTreeReport (tree : Tree) (report : Report) : List Entry :=
  report.issues.map ofIssue ++
    [⟨.info, "Compiled behavior tree",
      [("tree", tree.name), ("behaviors", toString tree.reachedNodes.length),
        ("errors", toString (report.count .error)),
        ("warnings", toString (report.count .warning)), ("passed", toString report.passed)]⟩]

/-- Compiling a set of access keys. -/
def ofKeyReport (set : AccessKeySet) (report : Report) : List Entry :=
  report.issues.map ofIssue ++
    [⟨.info, "Compiled shared access keys",
      [("set", set.name), ("keys", toString set.keys.length),
        ("errors", toString (report.count .error)), ("passed", toString report.passed)]⟩]

end Journal

end BehaviorTree
