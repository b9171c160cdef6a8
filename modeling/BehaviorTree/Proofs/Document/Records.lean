import BehaviorTree.Document.Record
import BehaviorTree.Proofs.Json.Decoding
import BehaviorTree.Proofs.Number.Digits

/-!
# Records from their values

Every record is decoded from its written value, members in the order of their names, as it was.  The
one exception are weights, which are read as numbers near the decimal that was written.
-/

namespace BehaviorTree.Document

open BehaviorTree.Json BehaviorTree.Number

/-! ## Slots -/

theorem present_some (name : String) (value : Value) (slots : List Slot) :
    present ((name, some value) :: slots) = (name, value) :: present slots :=
  rfl

theorem present_optional {α : Type} (name : String) (write : α → Value) (content : Option α)
    (slots : List Slot) :
    present ((name, content.map write) :: slots) =
      optionalMember name write content ++ present slots := by
  cases content <;> rfl

theorem present_comment (comment : String) (slots : List Slot) :
    present (("Comment", if comment = "" then none else some (.text comment)) :: slots) =
      (if comment = "" then [] else [("Comment", Value.text comment)]) ++ present slots := by
  split <;> rfl

def BehaviorRecord.slots (record : BehaviorRecord) : List Slot :=
  [("BehaviorType", some (.text record.behaviorType)),
    ("Id", some (.ofInt record.id)),
    ("Name", some (.text record.name)),
    ("Weight", some (.ofBinary .singleInDocument record.weight)),
    ("Concurrency", record.concurrency.map .text),
    ("Comment", if record.comment = "" then none else some (.text record.comment)),
    ("CompositeType", record.compositeType.map .text),
    ("Children", record.children.map .text),
    ("Priority", record.priority.map .text),
    ("LoopCount", record.loopCount.map fun count => .ofInt count.toInt),
    ("ConcurrentProperties", record.concurrentProperties.map ConcurrentRecord.toValue),
    ("DecoratorType", record.decoratorType.map .text),
    ("Child", record.child.map .text),
    ("NeverFail", record.neverFail.map .boolean),
    ("KeyType", record.keyType.map .text),
    ("AccessKey", record.accessKey.map .text),
    ("ClassName", record.className.map .text),
    ("DestinationState", record.destinationState.map .text),
    ("Parameters", record.parameters.map fun parameters =>
      .list (parameters.map ParameterRecord.toValue)),
    ("Debug", record.debug.map DebugRecord.toValue)]

theorem BehaviorRecord.toValue_eq (record : BehaviorRecord) :
    record.toValue = .object (present record.slots) := by
  simp only [toValue, slots, present_some, present_optional, present_comment, present_nil,
    List.append_assoc, List.cons_append, List.nil_append, List.append_nil]

/-- The slots of a behavior in the order of their names, with what is read of each. -/
theorem BehaviorRecord.arranged_slots (record : BehaviorRecord) :
    arranged (record.slots.map Slot.sorted) =
      [("AccessKey", record.accessKey.map (Value.sorted ∘ .text)),
        ("BehaviorType", some (.text record.behaviorType)),
        ("Child", record.child.map (Value.sorted ∘ .text)),
        ("Children", record.children.map (Value.sorted ∘ .text)),
        ("ClassName", record.className.map (Value.sorted ∘ .text)),
        ("Comment", if record.comment = "" then none else some (.text record.comment)),
        ("CompositeType", record.compositeType.map (Value.sorted ∘ .text)),
        ("Concurrency", record.concurrency.map (Value.sorted ∘ .text)),
        ("ConcurrentProperties",
          record.concurrentProperties.map (Value.sorted ∘ ConcurrentRecord.toValue)),
        ("Debug", record.debug.map (Value.sorted ∘ DebugRecord.toValue)),
        ("DecoratorType", record.decoratorType.map (Value.sorted ∘ .text)),
        ("DestinationState", record.destinationState.map (Value.sorted ∘ .text)),
        ("Id", some (.ofInt record.id)),
        ("KeyType", record.keyType.map (Value.sorted ∘ .text)),
        ("LoopCount", record.loopCount.map (Value.sorted ∘ fun count => .ofInt count.toInt)),
        ("Name", some (.text record.name)),
        ("NeverFail", record.neverFail.map (Value.sorted ∘ .boolean)),
        ("Parameters", record.parameters.map (Value.sorted ∘ fun parameters =>
          .list (parameters.map ParameterRecord.toValue))),
        ("Priority", record.priority.map (Value.sorted ∘ .text)),
        ("Weight", some (Value.ofBinary .singleInDocument record.weight).sorted)] := by
  have comment : (if record.comment = "" then none else some (Value.text record.comment)).map
      Value.sorted = if record.comment = "" then none else some (.text record.comment) := by
    split <;> rfl
  simp only [slots, arranged, insertSlot, Slot.sorted, List.map_cons, List.map_nil,
    List.foldl_cons, List.foldl_nil, String.reduceLT, ↓reduceIte, comment, Option.map_map]
  rfl

/-! ## Decoding -/

theorem ParameterRecord.decode_sorted (record : ParameterRecord) :
    ParameterRecord.shape.decode record.toValue.sorted = .ok record := by
  have sorted : record.toValue.sorted = record.toValue := by
    simp only [toValue, Value.sorted, sortedMembers, insertMember, String.reduceLT, String.reduceEq,
      ↓reduceIte]
  rw [sorted]
  rfl

theorem DebugRecord.decode_sorted (record : DebugRecord) :
    DebugRecord.shape.decode record.toValue.sorted = .ok record :=
  rfl

theorem ConcurrentRecord.decode_sorted (record : ConcurrentRecord) :
    ConcurrentRecord.shape.decode record.toValue.sorted = .ok record := by
  rcases record with ⟨breakOnConditionFailure, _ | failurePolicy, _ | successPolicy⟩
  all_goals
    simp only [toValue, optionalMember, List.cons_append, List.nil_append, List.append_nil,
      Value.sorted, sortedMembers, insertMember, String.reduceLT, String.reduceEq, ↓reduceIte]
    rfl

/-- A list is decoded item by item. -/
theorem decode_list {α : Type} {decoder : Decoder α} {write : α → Value} {contents : List α}
    (reads : ∀ content ∈ contents, decoder (write content).sorted = .ok content) :
    Decoder.list decoder (Value.list (contents.map write)).sorted = .ok contents := by
  rw [Value.sorted, sortedItems_eq_map, List.map_map]
  change (contents.map (Value.sorted ∘ write)).mapM decoder = _
  induction contents with
  | nil => rfl
  | cons content contents ih =>
      have others := ih fun later member => reads later (List.mem_cons_of_mem _ member)
      rw [List.map_cons, List.mapM_cons, Function.comp_apply, reads content List.mem_cons_self]
      simp only [bind, Except.bind] at others ⊢
      rw [others]
      rfl

theorem map_of_ok {α β : Type} {decoded : Except String α} {content : α} {store : α → β}
    (reads : decoded = .ok content) : decoded.map store = .ok (store content) := by
  rw [reads]
  rfl

theorem decode_integer {value lowest highest : Int} (name : String)
    (small : -9223372036854775808 ≤ value ∧ value ≤ 18446744073709551615)
    (inside : lowest ≤ value ∧ value ≤ highest) :
    Decoder.integer name lowest highest (.ofInt value) = .ok value := by
  have read : (Numeral.ofInt value).quantity = .integer value := quantity_ofInt small.1 small.2
  simp only [Value.ofInt, Decoder.integer, read]
  exact if_pos inside

theorem decode_ofInt {value : Int} (lowest : -9223372036854775808 ≤ value)
    (highest : value ≤ 9223372036854775807) :
    Decoder.identity (.ofInt value) = .ok value :=
  decode_integer "i64" ⟨lowest, by omega⟩ ⟨lowest, highest⟩

theorem decode_count (count : Int32) : Decoder.count (.ofInt count.toInt) = .ok count := by
  have lowest := count.le_toInt
  have highest := count.toInt_lt
  rw [Decoder.count, decode_integer "i32" ⟨by omega, by omega⟩ ⟨by omega, by omega⟩]
  exact congrArg Except.ok (Int32.ofInt_toInt count)

/-! ### Behaviors -/

/-- A comment is left out only if it is empty. -/
theorem setSlot_comment {record : BehaviorRecord} {comment : String} (blank : record.comment = "") :
    BehaviorRecord.shape.setSlot record
        ("Comment", if comment = "" then none else some (.text comment)) =
      .ok { record with comment } := by
  split
  · next empty => rw [empty, ← blank]; rfl
  · rfl


theorem foldlM_cons_of_ok {Record : Type} {shape : Shape Record} {slot : Slot} {slots : List Slot}
    {record after : Record} {result : Except String Record}
    (step : shape.setSlot record slot = .ok after)
    (rest : slots.foldlM shape.setSlot after = result) :
    (slot :: slots).foldlM shape.setSlot record = result := by
  rw [List.foldlM_cons, step]
  exact rest

theorem sorted_ofBinary {format : Format} (layout : Layout) (number : Binary format) :
    (Value.ofBinary layout number).sorted = .ofBinary layout number := by
  rw [Value.ofBinary]
  split <;> rfl

theorem setSlot_weight (record : BehaviorRecord) (weight : Value) :
    BehaviorRecord.shape.setSlot record ("Weight", some weight) =
      (Decoder.single weight).map fun weight => { record with weight } :=
  rfl

theorem foldlM_setSlot_weight (record : BehaviorRecord) (weight : Single) :
    [("Weight", some (Value.ofBinary .singleInDocument weight).sorted)].foldlM
        BehaviorRecord.shape.setSlot record =
      (Decoder.single (.ofBinary .singleInDocument weight)).map fun weight =>
        { record with weight } := by
  rw [sorted_ofBinary, List.foldlM_cons, setSlot_weight]
  cases Decoder.single (.ofBinary .singleInDocument weight) <;> rfl

theorem setSlot_id {record : BehaviorRecord} {value : Int}
    (lowest : -9223372036854775808 ≤ value) (highest : value ≤ 9223372036854775807) :
    BehaviorRecord.shape.setSlot record ("Id", some (.ofInt value)) =
      .ok { record with id := value } := by
  change (Decoder.identity (.ofInt value)).map (fun id => { record with id }) = _
  rw [decode_ofInt lowest highest]
  rfl
/-- A behavior is decoded as it was written, up to its weight. -/
theorem BehaviorRecord.decode_sorted (record : BehaviorRecord)
    (lowest : -9223372036854775808 ≤ record.id) (highest : record.id ≤ 9223372036854775807) :
    BehaviorRecord.shape.decode record.toValue.sorted =
      (Decoder.single (.ofBinary .singleInDocument record.weight)).map fun weight =>
        { record with weight } := by
  have distinct : (record.slots.map Prod.fst).Nodup := by
    simp only [slots, List.map_cons, List.map_nil]
    decide
  rw [toValue_eq, sorted_object distinct, arranged_slots, Shape.decode_present]
  · refine foldlM_cons_of_ok (Shape.setSlot_optional record.accessKey rfl (fun _ => rfl) rfl) ?_
    refine foldlM_cons_of_ok (Shape.setSlot_read rfl rfl) ?_
    refine foldlM_cons_of_ok (Shape.setSlot_optional record.child rfl (fun _ => rfl) rfl) ?_
    refine foldlM_cons_of_ok (Shape.setSlot_optional record.children rfl (fun _ => rfl) rfl) ?_
    refine foldlM_cons_of_ok (Shape.setSlot_optional record.className rfl (fun _ => rfl) rfl) ?_
    refine foldlM_cons_of_ok (setSlot_comment rfl) ?_
    refine foldlM_cons_of_ok
      (Shape.setSlot_optional record.compositeType rfl (fun _ => rfl) rfl) ?_
    refine foldlM_cons_of_ok (Shape.setSlot_optional record.concurrency rfl (fun _ => rfl) rfl) ?_
    refine foldlM_cons_of_ok (Shape.setSlot_optional record.concurrentProperties rfl
      (fun content => optional_eq_some nofun content.decode_sorted) rfl) ?_
    refine foldlM_cons_of_ok (Shape.setSlot_optional record.debug rfl
      (fun content => optional_eq_some nofun content.decode_sorted) rfl) ?_
    refine foldlM_cons_of_ok
      (Shape.setSlot_optional record.decoratorType rfl (fun _ => rfl) rfl) ?_
    refine foldlM_cons_of_ok
      (Shape.setSlot_optional record.destinationState rfl (fun _ => rfl) rfl) ?_
    refine foldlM_cons_of_ok (setSlot_id lowest highest) ?_
    refine foldlM_cons_of_ok (Shape.setSlot_optional record.keyType rfl (fun _ => rfl) rfl) ?_
    refine foldlM_cons_of_ok (Shape.setSlot_optional record.loopCount rfl
      (fun content => optional_eq_some nofun (decode_count content)) rfl) ?_
    refine foldlM_cons_of_ok (Shape.setSlot_read rfl rfl) ?_
    refine foldlM_cons_of_ok (Shape.setSlot_optional record.neverFail rfl (fun _ => rfl) rfl) ?_
    refine foldlM_cons_of_ok (Shape.setSlot_optional record.parameters rfl
      (fun _ => optional_eq_some nofun
        (decode_list fun content _ => content.decode_sorted)) rfl) ?_
    refine foldlM_cons_of_ok (Shape.setSlot_optional record.priority rfl (fun _ => rfl) rfl) ?_
    exact foldlM_setSlot_weight _ _
  · intro field member required
    simp only [BehaviorRecord.shape, List.mem_cons, List.not_mem_nil, or_false] at member
    rcases member with rfl | rfl | rfl | rfl | rfl | rfl | rfl | rfl | rfl | rfl | rfl | rfl | rfl |
      rfl | rfl | rfl | rfl | rfl | rfl | rfl
    case inl => exact ⟨.text record.behaviorType, by simp [Field.needed, Field.of]⟩
    case inr.inl => exact ⟨.ofInt record.id, by simp [Field.needed, Field.of]⟩
    all_goals cases required
/-! ### The hierarchy -/

theorem ChildRecord.decode_sorted (record : ChildRecord)
    (lowest : -9223372036854775808 ≤ record.childId)
    (highest : record.childId ≤ 9223372036854775807) :
    ChildRecord.shape.decode record.toValue.sorted = .ok record := by
  have sorted : record.toValue.sorted = .object (present [
      ("ChildId", some (.ofInt record.childId)),
      ("Parameters", some (Value.list
        (record.parameters.map ParameterRecord.toValue)).sorted)]) := by
    simp only [toValue, Value.sorted, sortedMembers, insertMember, String.reduceLT, String.reduceEq,
      ↓reduceIte]
    rfl
  rw [sorted, Shape.decode_present]
  · refine foldlM_cons_of_ok
      (Shape.setSlot_read rfl (map_of_ok (decode_ofInt lowest highest))) ?_
    exact foldlM_cons_of_ok (Shape.setSlot_read rfl
      (map_of_ok (decode_list fun content _ => content.decode_sorted))) rfl
  · simp [ChildRecord.shape, Field.of, Field.needed]

/-- An entry is decoded as it was written. -/
theorem HierarchyEntry.decode_sorted (entry : HierarchyEntry)
    (lowest : -9223372036854775808 ≤ entry.id) (highest : entry.id ≤ 9223372036854775807)
    (children : ∀ record ∈ entry.children,
      ChildRecord.shape.decode record.toValue.sorted = .ok record) :
    HierarchyEntry.shape.decode entry.toValue.sorted = .ok entry := by
  have sorted : entry.toValue.sorted = .object (present [
      ("Children", some (Value.list (entry.children.map ChildRecord.toValue)).sorted),
      ("Id", some (.ofInt entry.id))]) := by
    simp only [toValue, Value.sorted, sortedMembers, insertMember, String.reduceLT, String.reduceEq,
      ↓reduceIte]
    rfl
  rw [sorted, Shape.decode_present]
  · refine foldlM_cons_of_ok (Shape.setSlot_read rfl (map_of_ok (decode_list children))) ?_
    exact foldlM_cons_of_ok (Shape.setSlot_read rfl (map_of_ok (decode_ofInt lowest highest))) rfl
  · simp [HierarchyEntry.shape, Field.of, Field.needed]

/-! ## Readability -/

theorem isReadable_ofInt {value : Int} (level : Nat) (lowest : -9223372036854775808 ≤ value)
    (highest : value ≤ 9223372036854775807) : (Value.ofInt value).isReadable level = true := by
  change (!(Numeral.ofInt value).overflows) = true
  rw [Numeral.overflows, quantity_ofInt lowest (by omega)]
  rfl

/-- What is read as a finite number is no number out of range. -/
theorem isReadable_of_single {value : Value} {number : Single}
    (reads : Decoder.single value = .ok number) (finite : number.isFinite = true) (level : Nat) :
    value.isReadable level = true := by
  cases value with
  | number numeral =>
      have narrowed : numeral.quantity.toSingle = number := Except.ok.inj reads
      rw [Value.isReadable, Numeral.overflows]
      cases quantity : numeral.quantity with
      | integer value => rfl
      | real value =>
          cases value with
          | infinity negative =>
              rw [quantity] at narrowed
              rw [← narrowed] at finite
              cases finite
          | nan => rfl
          | finite negative place => rfl
  | _ => cases reads

theorem ParameterRecord.isReadable_toValue (record : ParameterRecord) {level : Nat}
    (shallow : level < deepestNesting) : record.toValue.isReadable level = true := by
  simp [toValue, Value.isReadable, readableMembers, shallow]

theorem isReadable_parameters (parameters : List ParameterRecord) {level : Nat}
    (shallow : level + 1 < deepestNesting) :
    (Value.list (parameters.map ParameterRecord.toValue)).isReadable level = true :=
  isReadable_list (by omega) fun record _ => record.isReadable_toValue shallow

theorem DebugRecord.isReadable_toValue (record : DebugRecord) {level : Nat}
    (shallow : level < deepestNesting) : record.toValue.isReadable level = true := by
  simp [toValue, Value.isReadable, readableMembers, shallow]

theorem ConcurrentRecord.isReadable_toValue (record : ConcurrentRecord) {level : Nat}
    (shallow : level < deepestNesting) : record.toValue.isReadable level = true := by
  rcases record with ⟨_, _ | _, _ | _⟩ <;>
    simp [toValue, optionalMember, Value.isReadable, readableMembers, shallow]

/-- Only the weight decides whether a behavior can be read. -/
theorem BehaviorRecord.isReadable_toValue (record : BehaviorRecord)
    (lowest : -9223372036854775808 ≤ record.id) (highest : record.id ≤ 9223372036854775807) :
    record.toValue.isReadable 2 =
      (Value.ofBinary .singleInDocument record.weight).isReadable 3 := by
  have comment : Slot.isReadable 3
      ("Comment", if record.comment = "" then none else some (.text record.comment)) = true := by
    split <;> rfl
  have count (content : Int32) : (Value.ofInt content.toInt).isReadable 3 = true := by
    have lowest := content.le_toInt
    have highest := content.toInt_lt
    exact isReadable_ofInt 3 (by omega) (by omega)
  have policies (content : ConcurrentRecord) : content.toValue.isReadable 3 = true :=
    content.isReadable_toValue (by decide)
  have parameters (contents : List ParameterRecord) :
      (Value.list (contents.map ParameterRecord.toValue)).isReadable 3 = true :=
    isReadable_parameters contents (by decide)
  have mark (content : DebugRecord) : content.toValue.isReadable 3 = true :=
    content.isReadable_toValue (by decide)
  have identity : Slot.isReadable 3 ("Id", some (.ofInt record.id)) = true :=
    isReadable_ofInt 3 lowest highest
  have text (content : String) : (Value.text content).isReadable 3 = true := rfl
  have boolean (content : Bool) : (Value.boolean content).isReadable 3 = true := rfl
  rw [toValue_eq, Value.isReadable, readableMembers_present]
  simp only [slots, List.all_cons, List.all_nil, identity, comment, isReadable_optional text,
    isReadable_optional boolean, isReadable_optional count, isReadable_optional policies,
    isReadable_optional parameters, isReadable_optional mark]
  simp [Slot.isReadable, Value.isReadable, deepestNesting]

theorem ChildRecord.isReadable_toValue (record : ChildRecord)
    (lowest : -9223372036854775808 ≤ record.childId)
    (highest : record.childId ≤ 9223372036854775807) {level : Nat}
    (shallow : level + 2 < deepestNesting) : record.toValue.isReadable level = true := by
  have outer : level < deepestNesting := by omega
  have parameters : (Value.list (record.parameters.map ParameterRecord.toValue)).isReadable
      (level + 1) = true := isReadable_parameters _ shallow
  have identity : (Value.ofInt record.childId).isReadable (level + 1) = true :=
    isReadable_ofInt _ lowest highest
  rw [toValue, Value.isReadable]
  simp only [readableMembers, outer, parameters, identity, decide_true, Bool.and_true]

theorem HierarchyEntry.isReadable_toValue (entry : HierarchyEntry)
    (lowest : -9223372036854775808 ≤ entry.id) (highest : entry.id ≤ 9223372036854775807)
    (children : ∀ record ∈ entry.children, -9223372036854775808 ≤ record.childId ∧
      record.childId ≤ 9223372036854775807) : entry.toValue.isReadable 2 = true := by
  have records : (Value.list (entry.children.map ChildRecord.toValue)).isReadable 3 = true := by
    refine isReadable_list (by decide) fun record member => ?_
    rcases children record member with ⟨low, high⟩
    exact record.isReadable_toValue low high (by decide)
  have identity : (Value.ofInt entry.id).isReadable 3 = true := isReadable_ofInt 3 lowest highest
  rw [toValue, Value.isReadable]
  simp only [readableMembers, records, identity, Bool.and_true]
  rfl

end BehaviorTree.Document
