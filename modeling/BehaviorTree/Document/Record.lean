import BehaviorTree.Json.Decoder
import BehaviorTree.Parameter
import BehaviorTree.Node

/-!
# Records of a tree document

A document lists one record for each behavior, and for each behavior with children an entry that
lists them.  Named properties stay words here, so that an unknown word costs a warning and not the
record.

A draft is a document of which only the outermost members have been read; a record that turns out to
be unfit can then be left out alone.
-/

namespace BehaviorTree.Document

open BehaviorTree.Json BehaviorTree.Number

structure ParameterRecord where
  name : String := ""
  type : String := ""
  value : String := ""
deriving DecidableEq

structure ConcurrentRecord where
  breakOnConditionFailure : Bool := false
  failurePolicy : Option String := none
  successPolicy : Option String := none
deriving DecidableEq

structure DebugRecord where
  isValid : Bool := false
deriving DecidableEq

/-- What a document says about one behavior by itself. -/
structure BehaviorRecord where
  behaviorType : String := ""
  id : Int := 0
  name : String := ""
  weight : Single := Single.one
  concurrency : Option String := none
  comment : String := ""
  compositeType : Option String := none
  children : Option String := none
  priority : Option String := none
  loopCount : Option Int32 := none
  concurrentProperties : Option ConcurrentRecord := none
  decoratorType : Option String := none
  child : Option String := none
  neverFail : Option Bool := none
  keyType : Option String := none
  accessKey : Option String := none
  className : Option String := none
  destinationState : Option String := none
  parameters : Option (List ParameterRecord) := none
  debug : Option DebugRecord := none
deriving DecidableEq

/-- An attachment: the child and the bindings of its parameters. -/
structure ChildRecord where
  childId : Int := 0
  parameters : List ParameterRecord := []
deriving DecidableEq

/-- The children of one behavior, in order. -/
structure HierarchyEntry where
  id : Int := 0
  children : List ChildRecord := []
deriving DecidableEq

structure TreeDocument where
  name : String
  defaultState : String
  expandMethods : Bool
  behaviors : List BehaviorRecord
  hierarchy : List HierarchyEntry
deriving DecidableEq

/-- A document whose records have not been decoded. -/
structure TreeDraft where
  name : String := ""
  defaultState : String := "Default"
  expandMethods : Bool := false
  /-- The root, in documents from before there were states. -/
  rootId : Option Int := none
  behaviors : List Value := []
  hierarchy : List Value := []
deriving DecidableEq

/-! ## Reading -/

def ParameterRecord.shape : Shape ParameterRecord where
  name := "ParameterRecord"
  blank := {}
  fields := [
    .of "Name" .text fun record name => { record with name },
    .of "Type" .text fun record type => { record with type },
    .of "Value" .text fun record value => { record with value }]

def ConcurrentRecord.shape : Shape ConcurrentRecord where
  name := "ConcurrentRecord"
  blank := {}
  fields := [
    .of "BreakOnConditionFailure" .boolean fun record breakOnConditionFailure =>
      { record with breakOnConditionFailure },
    .of "FailurePolicy" (.optional .text) fun record failurePolicy =>
      { record with failurePolicy },
    .of "SuccessPolicy" (.optional .text) fun record successPolicy =>
      { record with successPolicy }]

def DebugRecord.shape : Shape DebugRecord where
  name := "DebugRecord"
  blank := {}
  fields := [.of "IsValid" .boolean fun record isValid => { record with isValid }]

def BehaviorRecord.shape : Shape BehaviorRecord where
  name := "BehaviorRecord"
  blank := {}
  fields := [
    (Field.of "BehaviorType" .text fun record behaviorType =>
      { record with behaviorType }).needed,
    (Field.of "Id" .identity fun record id => { record with id }).needed,
    .of "Name" .text fun record name => { record with name },
    .of "Weight" .single fun record weight => { record with weight },
    .of "Concurrency" (.optional .text) fun record concurrency => { record with concurrency },
    .of "Comment" .text fun record comment => { record with comment },
    .of "CompositeType" (.optional .text) fun record compositeType =>
      { record with compositeType },
    .of "Children" (.optional .text) fun record children => { record with children },
    .of "Priority" (.optional .text) fun record priority => { record with priority },
    .of "LoopCount" (.optional .count) fun record loopCount => { record with loopCount },
    .of "ConcurrentProperties" (.optional ConcurrentRecord.shape.decode)
      fun record concurrentProperties => { record with concurrentProperties },
    .of "DecoratorType" (.optional .text) fun record decoratorType =>
      { record with decoratorType },
    .of "Child" (.optional .text) fun record child => { record with child },
    .of "NeverFail" (.optional .boolean) fun record neverFail => { record with neverFail },
    .of "KeyType" (.optional .text) fun record keyType => { record with keyType },
    .of "AccessKey" (.optional .text) fun record accessKey => { record with accessKey },
    .of "ClassName" (.optional .text) fun record className => { record with className },
    .of "DestinationState" (.optional .text) fun record destinationState =>
      { record with destinationState },
    .of "Parameters" (.optional (.list ParameterRecord.shape.decode)) fun record parameters =>
      { record with parameters },
    .of "Debug" (.optional DebugRecord.shape.decode) fun record debug => { record with debug }]

def ChildRecord.shape : Shape ChildRecord where
  name := "BehaviorContainer"
  blank := {}
  fields := [
    (Field.of "ChildId" .identity fun record childId => { record with childId }).needed,
    .of "Parameters" (.list ParameterRecord.shape.decode) fun record parameters =>
      { record with parameters }]

def HierarchyEntry.shape : Shape HierarchyEntry where
  name := "BehaviorChildren"
  blank := {}
  fields := [
    (Field.of "Id" .identity fun entry id => { entry with id }).needed,
    .of "Children" (.list ChildRecord.shape.decode) fun entry children =>
      { entry with children }]

def TreeDraft.shape : Shape TreeDraft where
  name := "RawTreeDocument"
  blank := {}
  fields := [
    .of "Name" .text fun draft name => { draft with name },
    .of "DefaultState" .text fun draft defaultState => { draft with defaultState },
    .of "ExpandMethods" .boolean fun draft expandMethods => { draft with expandMethods },
    .of "RootId" (.optional .identity) fun draft rootId => { draft with rootId },
    (Field.of "Behaviors" .items fun draft behaviors => { draft with behaviors }).listed,
    (Field.of "Hierarchy" .items fun draft hierarchy => { draft with hierarchy }).listed]

/-! ## Writing -/

/-- A member that is left out when there is nothing to write. -/
def optionalMember {α : Type} (name : String) (write : α → Value) :
    Option α → List (String × Value)
  | some content => [(name, write content)]
  | none => []

def ParameterRecord.toValue (record : ParameterRecord) : Value :=
  .object [("Name", .text record.name), ("Type", .text record.type), ("Value", .text record.value)]

def ConcurrentRecord.toValue (record : ConcurrentRecord) : Value :=
  .object <|
    [("BreakOnConditionFailure", .boolean record.breakOnConditionFailure)] ++
    optionalMember "FailurePolicy" .text record.failurePolicy ++
    optionalMember "SuccessPolicy" .text record.successPolicy

def DebugRecord.toValue (record : DebugRecord) : Value :=
  .object [("IsValid", .boolean record.isValid)]

def BehaviorRecord.toValue (record : BehaviorRecord) : Value :=
  .object <|
    [("BehaviorType", .text record.behaviorType),
      ("Id", .ofInt record.id),
      ("Name", .text record.name),
      ("Weight", .ofBinary .singleInDocument record.weight)] ++
    optionalMember "Concurrency" .text record.concurrency ++
    (if record.comment = "" then [] else [("Comment", .text record.comment)]) ++
    optionalMember "CompositeType" .text record.compositeType ++
    optionalMember "Children" .text record.children ++
    optionalMember "Priority" .text record.priority ++
    optionalMember "LoopCount" (fun count => .ofInt count.toInt) record.loopCount ++
    optionalMember "ConcurrentProperties" ConcurrentRecord.toValue record.concurrentProperties ++
    optionalMember "DecoratorType" .text record.decoratorType ++
    optionalMember "Child" .text record.child ++
    optionalMember "NeverFail" .boolean record.neverFail ++
    optionalMember "KeyType" .text record.keyType ++
    optionalMember "AccessKey" .text record.accessKey ++
    optionalMember "ClassName" .text record.className ++
    optionalMember "DestinationState" .text record.destinationState ++
    optionalMember "Parameters" (fun parameters => .list (parameters.map ParameterRecord.toValue))
      record.parameters ++
    optionalMember "Debug" DebugRecord.toValue record.debug

def ChildRecord.toValue (record : ChildRecord) : Value :=
  .object [("ChildId", .ofInt record.childId),
    ("Parameters", .list (record.parameters.map ParameterRecord.toValue))]

def HierarchyEntry.toValue (entry : HierarchyEntry) : Value :=
  .object [("Id", .ofInt entry.id), ("Children", .list (entry.children.map ChildRecord.toValue))]

def TreeDocument.toValue (document : TreeDocument) : Value :=
  .object [("Name", .text document.name),
    ("DefaultState", .text document.defaultState),
    ("ExpandMethods", .boolean document.expandMethods),
    ("Behaviors", .list (document.behaviors.map BehaviorRecord.toValue)),
    ("Hierarchy", .list (document.hierarchy.map HierarchyEntry.toValue))]

/-- The draft of a document: what remains when its records are written and not decoded again. -/
def TreeDocument.toDraft (document : TreeDocument) : TreeDraft where
  name := document.name
  defaultState := document.defaultState
  expandMethods := document.expandMethods
  behaviors := document.behaviors.map BehaviorRecord.toValue
  hierarchy := document.hierarchy.map HierarchyEntry.toValue

/-! ## Comparing -/

/-- Equality with weights compared as numbers. -/
def BehaviorRecord.agrees (left right : BehaviorRecord) : Bool :=
  left.weight.sameNumber right.weight &&
    { left with weight := Single.one } = { right with weight := Single.one }

/-- Equality with weights compared as numbers. -/
def TreeDocument.agrees (left right : TreeDocument) : Bool :=
  { left with behaviors := [] } = { right with behaviors := [] } &&
    left.behaviors.length = right.behaviors.length &&
    (left.behaviors.zip right.behaviors).all fun (leftRecord, rightRecord) =>
      leftRecord.agrees rightRecord

end BehaviorTree.Document
