import BehaviorTree.AccessKey
import BehaviorTree.Json.Document
import BehaviorTree.Json.Printer

/-!
# Texts of access key documents

A document of keys names the set, counts its keys, and lists them.  A key is an object with a single
member, which is named for what the key limits.  Keys that do not fit are skipped.
-/

namespace BehaviorTree.Document

open BehaviorTree.Json BehaviorTree.Number

/-- A document of keys that have not been decoded.  The count is for other readers. -/
structure KeyDraft where
  name : String := ""
  count : Nat := 0
  keys : List Value := []

structure CounterLimitRecord where
  key : String := ""
  maxAccessCount : Int32 := 1

structure TimeLimitRecord where
  key : String := ""
  timeInterval : Single := Single.one

/-! ## Reading -/

def CounterLimitRecord.shape : Shape CounterLimitRecord where
  name := "CounterLimitRecord"
  blank := {}
  fields := [
    .of "Key" .text fun record key => { record with key },
    .of "MaxAccessCount" .count fun record maxAccessCount => { record with maxAccessCount }]

def TimeLimitRecord.shape : Shape TimeLimitRecord where
  name := "TimeLimitRecord"
  blank := {}
  fields := [
    .of "Key" .text fun record key => { record with key },
    .of "TimeInterval" .single fun record timeInterval => { record with timeInterval }]

def KeyDraft.shape : Shape KeyDraft where
  name := "AccessKeysDocument"
  blank := {}
  fields := [
    .of "Name" .text fun draft name => { draft with name },
    .of "Count" .size fun draft count => { draft with count },
    (Field.of "Keys" .items fun draft keys => { draft with keys }).listed]

/-- A word that names no type of keys. -/
def unknownKeyType (written : String) : String :=
  s!"unknown variant `{written}`, expected `CounterLimit` or `TimeLimit`"

/-- Decodes a key of a type from its record. -/
def keyOfType (written : String) (record : Value) : Except String AccessKey :=
  match Vocabulary.ofWord AccessKeyType written with
  | .ok .counterLimit => do
      let record ← CounterLimitRecord.shape.decode record
      return .counterLimit record.key record.maxAccessCount
  | .ok .timeLimit => do
      let record ← TimeLimitRecord.shape.decode record
      return .timeLimit record.key record.timeInterval
  | .error _ => .error (unknownKeyType written)

/-- Decodes a key. -/
def accessKey : Decoder AccessKey
  | .object [(written, record)] => keyOfType written record
  | .object _ => .error "invalid value: map, expected map with a single key"
  | .text written =>
      match Vocabulary.ofWord AccessKeyType written with
      | .ok _ => .error "invalid type: unit variant, expected newtype variant"
      | .error _ => .error (unknownKeyType written)
  | value => .error (wrongType value "string or map")

/-- A key that has been skipped: its position and what is wrong with it. -/
structure SkippedKey where
  index : Nat
  reason : String
deriving DecidableEq

/-- A set of keys with those that have been skipped. -/
structure LoadedKeys where
  set : AccessKeySet
  skipped : List SkippedKey
deriving DecidableEq

/-- The keys of a draft. -/
def KeyDraft.loaded (draft : KeyDraft) : LoadedKeys where
  set := ⟨draft.name, draft.keys.filterMap fun value => (accessKey value).toOption⟩
  skipped := draft.keys.zipIdx.filterMap fun (value, index) =>
    match accessKey value with
    | .ok _ => none
    | .error reason => some ⟨index, reason⟩

/-! ## Writing -/

def keyToValue : AccessKey → Value
  | .counterLimit name maxAccessCount =>
      .object [("CounterLimit", .object [("Key", .text name),
        ("MaxAccessCount", .ofInt maxAccessCount.toInt)])]
  | .timeLimit name interval =>
      .object [("TimeLimit", .object [("Key", .text name),
        ("TimeInterval", .ofBinary .doubleInDocument interval.toDouble)])]

def keysToValue (set : AccessKeySet) : Value :=
  .object [("Name", .text set.name), ("Count", .ofInt set.keys.length),
    ("Keys", .list (set.keys.map keyToValue))]

end BehaviorTree.Document

namespace BehaviorTree.AccessKeySet

open BehaviorTree.Document BehaviorTree.Json

/-- The text of the document of a set. -/
def save (set : AccessKeySet) : String :=
  (keysToValue set).render

/-- The set of a text, if the text holds a document. -/
def load (text : String) : Except Failure LoadedKeys :=
  (KeyDraft.shape.read text).map KeyDraft.loaded

end BehaviorTree.AccessKeySet
