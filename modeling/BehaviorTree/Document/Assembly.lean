import BehaviorTree.Document.LoadWarning
import BehaviorTree.Document.Record
import BehaviorTree.Tree.Builder

/-!
# The tree of a document

A tree is assembled from a draft record by record and then entry by entry.  Whatever does not fit is
left out, replaced or refused, with a warning; no draft fails as a whole.

The first record of an identity is the one that the hierarchy means; later ones are kept without a
place in it.  A draft without states comes from a time when the root was a priority selector, which
is then turned into a state.
-/

namespace BehaviorTree.Document

open BehaviorTree.Json

/-- A result with the warnings on the way to it. -/
structure Noted (α : Type) where
  result : α
  warnings : List LoadWarning

instance : Monad Noted where
  pure result := ⟨result, []⟩
  bind noted next :=
    let following := next noted.result
    ⟨following.result, noted.warnings ++ following.warnings⟩

def note (warning : LoadWarning) : Noted Unit :=
  ⟨(), [warning]⟩

/-! ## Nodes -/

/-- The value of a word; the default where there is no word, and, with a warning, where the word is
unknown. -/
def wordOrDefault {α : Type} [Vocabulary α] [Inhabited α] (node field : String) :
    Option String → Noted α
  | none => pure default
  | some written =>
      match Vocabulary.ofWord α written with
      | .ok value => pure value
      | .error _ => do
          note (.unknownValue node field written (word (default : α)))
          return default

/-- The value of a word that decides what a record is.  An unknown word drops the record; where
there is no word, `fallback` is used with a warning. -/
def decisiveWord {α : Type} [Vocabulary α] (node field : String) (fallback : α) :
    Option String → ExceptT String Noted α
  | none => do
      note (.missingValue node field (word fallback))
      return fallback
  | some written =>
      match Vocabulary.ofWord α written with
      | .ok value => return value
      | .error unknown => throw unknown.message

/-- The parameters of records; `node` is named in warnings. -/
def parametersOf (node : String) (records : List ParameterRecord) : Noted ParameterSet :=
  records.mapM fun record => do
    let type ← wordOrDefault node "parameter type"
      (if record.type = "" then none else some record.type)
    return ⟨record.name, type, record.value⟩

def compositeOf (record : BehaviorRecord) : CompositeType → Noted Composite
  | .sequence => return .sequence
  | .random => return .random
  | .priority => return .priority (← wordOrDefault record.name "Priority" record.priority)
  | .state => return .state (← wordOrDefault record.name "Priority" record.priority)
  | .loop => return .loop (record.loopCount.getD 0)
  | .concurrent => do
      let properties := record.concurrentProperties.getD {}
      let failure ← wordOrDefault record.name "FailurePolicy" properties.failurePolicy
      let success ← wordOrDefault record.name "SuccessPolicy" properties.successPolicy
      return .concurrent
        { failure, success, breakOnConditionFailure := properties.breakOnConditionFailure }

def decoratorKindOf (record : BehaviorRecord) : DecoratorType → Noted DecoratorKind
  | .default => return .default
  | .accessLimit => do
      let keyType ← wordOrDefault record.name "KeyType" record.keyType
      return .accessLimit
        { className := record.className.getD "", accessKey := record.accessKey.getD "", keyType }

/-- The kind of a record, still without parameters. -/
def kindOf (record : BehaviorRecord) : ExceptT String Noted NodeKind := do
  let debugValid := (record.debug.map DebugRecord.isValid).getD false
  match Vocabulary.ofWord BehaviorType record.behaviorType with
  | .error unknown => throw unknown.message
  | .ok .action => return .action { debugValid }
  | .ok .condition => return .condition { debugValid }
  | .ok .decorator =>
      let type ←
        decisiveWord record.name "DecoratorType" DecoratorType.default record.decoratorType
      let kind ← (decoratorKindOf record type : Noted DecoratorKind)
      return .decorator { kind, neverFail := record.neverFail.getD false, debugValid }
  | .ok .composite =>
      let type ←
        decisiveWord record.name "CompositeType" CompositeType.sequence record.compositeType
      return .composite (← (compositeOf record type : Noted Composite))
  | .ok .changeState => return .changeState (record.destinationState.getD "")

/-- The node of a record, or the reason why the record is dropped. -/
def nodeOf (record : BehaviorRecord) : ExceptT String Noted Node := do
  let kind ← kindOf record
  let parameters ← (parametersOf record.name (record.parameters.getD []) : Noted ParameterSet)
  let concurrency ← (wordOrDefault record.name "Concurrency" record.concurrency :
    Noted ConcurrencyMode)
  return { name := record.name, weight := record.weight, concurrency, comment := record.comment
           kind := kind.withParameters parameters }

/-! ## Assembly -/

/-- What has been assembled from the front of a draft. -/
structure Assembly where
  builder : Builder
  /-- The identities of the records, with their nodes. -/
  nodes : List (Int × NodeId) := []
  states : List NodeId := []
  warnings : List LoadWarning := []

namespace Assembly

def warn (assembly : Assembly) (warning : LoadWarning) : Assembly :=
  { assembly with warnings := assembly.warnings ++ [warning] }

/-- The node of the first record of an identity. -/
def node? (assembly : Assembly) (id : Int) : Option NodeId :=
  assembly.nodes.lookup id

/-- Adds the node of a record. -/
def addNode (assembly : Assembly) (recordId : Int) (node : Node) : Assembly :=
  let id := assembly.builder.tree.nextId
  { assembly with
    builder := assembly.builder.addNode node
    nodes := assembly.nodes ++ [(recordId, id)]
    states := if node.isState then assembly.states ++ [id] else assembly.states }

/-- Adds the element of a draft's behaviors at a position. -/
def addBehavior (assembly : Assembly) (element : Value × Nat) : Assembly :=
  match BehaviorRecord.shape.decode element.1 with
  | .error reason => assembly.warn (.droppedBehavior element.2 reason)
  | .ok record =>
      let built := (nodeOf record).run
      let assembly := { assembly with warnings := assembly.warnings ++ built.warnings }
      match built.result with
      | .error reason => assembly.warn (.droppedBehavior element.2 reason)
      | .ok node => assembly.addNode record.id node

/-- Attaches a child record to the node of the entry `entryId`. -/
def addChild (entryId : Int) (parent : NodeId) (assembly : Assembly) (record : ChildRecord) :
    Assembly :=
  match assembly.node? record.childId with
  | none => assembly.warn (.unresolvedEdge record.childId)
  | some child =>
      let parentName := ((assembly.builder.get? parent).map Node.name).getD ""
      let bindings := parametersOf parentName record.parameters
      let assembly := { assembly with warnings := assembly.warnings ++ bindings.warnings }
      match assembly.builder.attach parent child bindings.result with
      | .error reason => assembly.warn (.rejectedEdge entryId record.childId reason)
      | .ok builder => { assembly with builder }

/-- Adds an entry of the hierarchy. -/
def addEntry (assembly : Assembly) (entry : HierarchyEntry) : Assembly :=
  match assembly.node? entry.id with
  | none => assembly.warn (.unresolvedEdge entry.id)
  | some parent => entry.children.foldl (addChild entry.id parent) assembly

/-- Adds the element of a draft's hierarchy at a position. -/
def addHierarchy (assembly : Assembly) (element : Value × Nat) : Assembly :=
  match HierarchyEntry.shape.decode element.1 with
  | .error reason => assembly.warn (.droppedHierarchy element.2 reason)
  | .ok entry => assembly.addEntry entry

/-- Makes the root of a draft without states a state.  Where that fails, the finished tree gets a
state of its own. -/
def recoverState (assembly : Assembly) (rootId : Option Int) : Assembly :=
  let promoted := do
    let root ← assembly.node? (rootId.getD 0)
    let builder ← assembly.builder.promoteToState? root
    return (root, builder)
  match promoted with
  | some (root, builder) =>
      let name := ((builder.get? root).map Node.name).getD ""
      { assembly with builder := builder.setDefaultState name, states := [root] }.warn
        (.legacyMigration name)
  | none => assembly.warn (.synthesizedDefaultState defaultStateName)

end Assembly

/-- A tree with what its load has tolerated. -/
structure Loaded where
  tree : Tree
  warnings : List LoadWarning
deriving DecidableEq

def Loaded.isClean (loaded : Loaded) : Bool :=
  loaded.warnings.isEmpty

namespace TreeDraft

/-- The start of an assembly: the properties of the tree as a whole. -/
def start (draft : TreeDraft) : Assembly :=
  { builder := ((Builder.new draft.name).setDefaultState draft.defaultState).setExpandMethods
      draft.expandMethods }

/-- All records and entries of a draft, assembled. -/
def assembled (draft : TreeDraft) : Assembly :=
  draft.hierarchy.zipIdx.foldl Assembly.addHierarchy
    (draft.behaviors.zipIdx.foldl Assembly.addBehavior draft.start)

/-- The tree of a draft. -/
def loaded (draft : TreeDraft) : Loaded :=
  let assembly := draft.assembled
  let assembly :=
    if assembly.states.isEmpty then assembly.recoverState draft.rootId else assembly
  ⟨assembly.builder.finish assembly.states, assembly.warnings⟩

end TreeDraft

end BehaviorTree.Document
