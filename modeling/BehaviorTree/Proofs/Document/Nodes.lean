import BehaviorTree.Proofs.Document.Assembly

/-!
# Nodes from their records

The record of a node gives back the node without its children, and nothing in it is worth a warning.
-/

namespace BehaviorTree

/-- A vocabulary in which every word reads back as its value. -/
class LawfulVocabulary (α : Type) [Vocabulary α] : Prop where
  ofWord_word : ∀ value : α, Vocabulary.ofWord α (word value) = .ok value

export LawfulVocabulary (ofWord_word)

instance : LawfulVocabulary BehaviorType := ⟨by rintro (_ | _) <;> rfl⟩

instance : LawfulVocabulary CompositeType := ⟨by rintro (_ | _) <;> rfl⟩

instance : LawfulVocabulary DecoratorType := ⟨by rintro (_ | _) <;> rfl⟩

instance : LawfulVocabulary ConcurrencyMode := ⟨by rintro (_ | _) <;> rfl⟩

instance : LawfulVocabulary PriorityType := ⟨by rintro (_ | _) <;> rfl⟩

instance : LawfulVocabulary FailurePolicy := ⟨by rintro (_ | _) <;> rfl⟩

instance : LawfulVocabulary SuccessPolicy := ⟨by rintro (_ | _) <;> rfl⟩

instance : LawfulVocabulary ParameterType := ⟨by rintro (_ | _) <;> rfl⟩

instance : LawfulVocabulary AccessKeyType := ⟨by rintro (_ | _) <;> rfl⟩

namespace Document

open BehaviorTree.Json

/-! ## Words -/

theorem pure_bind_noted {α β : Type} (result : α) (next : α → Noted β) :
    ((⟨result, []⟩ : Noted α) >>= next) = next result :=
  rfl

theorem wordOrDefault_word {α : Type} [Vocabulary α] [LawfulVocabulary α] [Inhabited α]
    (node field : String) (value : α) :
    wordOrDefault node field (some (word value)) = ⟨value, []⟩ := by
  simp only [wordOrDefault, ofWord_word]
  rfl

theorem decisiveWord_word {α : Type} [Vocabulary α] [LawfulVocabulary α] (node field : String)
    (fallback value : α) :
    (decisiveWord node field fallback (some (word value))).run = ⟨.ok value, []⟩ := by
  simp only [decisiveWord, ofWord_word]
  rfl

theorem mapM_loop_noted {α β : Type} {step : β → Noted α} {write : α → β}
    (reads : ∀ content, step (write content) = ⟨content, []⟩) (contents front : List α) :
    List.mapM.loop step (contents.map write) front = ⟨front.reverse ++ contents, []⟩ := by
  induction contents generalizing front with
  | nil =>
      rw [List.map_nil, List.append_nil]
      rfl
  | cons content contents ih =>
      rw [List.map_cons, List.mapM.loop, reads, pure_bind_noted, ih, List.reverse_cons,
        List.append_assoc, List.singleton_append]

theorem word_parameterType_ne (type : ParameterType) : word type ≠ "" := by
  cases type <;> decide

/-- Parameters are read back from their records. -/
theorem parametersOf_recordsOf (node : String) (parameters : ParameterSet) :
    parametersOf node (recordsOf parameters) = ⟨parameters, []⟩ := by
  refine mapM_loop_noted (fun parameter => ?_) parameters []
  simp only [recordOf, word_parameterType_ne, ↓reduceIte, wordOrDefault_word]
  rfl

/-! ## Kinds -/

theorem compositeOf_withComposite (record : BehaviorRecord) (children : String)
    (composite : Composite) :
    compositeOf (withComposite record children composite) composite.type = ⟨composite, []⟩ := by
  cases composite with
  | sequence | random | loop => rfl
  | priority order | state order =>
      simp only [withComposite, Composite.type, compositeOf, wordOrDefault_word]
      rfl
  | concurrent policy =>
      simp only [withComposite, Composite.type, compositeOf, Option.getD_some, wordOrDefault_word]
      rfl

theorem decoratorKindOf_withDecorator (record : BehaviorRecord) (child : String)
    (decorator : Decorator) :
    decoratorKindOf (withDecorator record child decorator) decorator.type =
      ⟨decorator.kind, []⟩ := by
  rcases decorator with ⟨_ | limit, neverFail, debugValid, parameters⟩
  · rfl
  · simp only [withDecorator, Decorator.type, decoratorKindOf, wordOrDefault_word]
    rfl

theorem withComposite_words (record : BehaviorRecord) (children : String) (composite : Composite) :
    (withComposite record children composite).behaviorType = record.behaviorType ∧
      (withComposite record children composite).compositeType = some (word composite.type) := by
  cases composite <;> exact ⟨rfl, rfl⟩

theorem withDecorator_words (record : BehaviorRecord) (child : String) (decorator : Decorator) :
    (withDecorator record child decorator).behaviorType = record.behaviorType ∧
      (withDecorator record child decorator).decoratorType = some (word decorator.type) ∧
      (withDecorator record child decorator).neverFail = some decorator.neverFail ∧
      (withDecorator record child decorator).debug = some ⟨decorator.debugValid⟩ := by
  rcases decorator with ⟨_ | _, _, _, _⟩ <;> exact ⟨rfl, rfl, rfl, rfl⟩

/-- A step without a warning is as good as its result. -/
theorem run_bind_of_run {α β : Type} {step : ExceptT String Noted α} {result : α}
    (done : step.run = ⟨.ok result, []⟩) (next : α → ExceptT String Noted β) :
    (step >>= next).run = (next result).run := by
  change (step.run >>= _) = _
  rw [done]
  rfl

theorem kindOf_withDecorator {record : BehaviorRecord}
    (isDecorator : record.behaviorType = word BehaviorType.decorator) (child : String)
    (decorator : Decorator) :
    (kindOf (withDecorator record child decorator)).run =
      ⟨.ok (.decorator { decorator with parameters := [] }), []⟩ := by
  rcases withDecorator_words record child decorator with ⟨behaviorType, type, neverFail, debug⟩
  rw [kindOf, behaviorType, isDecorator, ofWord_word]
  dsimp only
  rw [type, run_bind_of_run (decisiveWord_word _ _ _ _), decoratorKindOf_withDecorator, neverFail,
    debug]
  rfl

theorem kindOf_withComposite {record : BehaviorRecord}
    (isComposite : record.behaviorType = word BehaviorType.composite) (children : String)
    (composite : Composite) :
    (kindOf (withComposite record children composite)).run = ⟨.ok (.composite composite), []⟩ := by
  rcases withComposite_words record children composite with ⟨behaviorType, type⟩
  rw [kindOf, behaviorType, isComposite, ofWord_word]
  dsimp only
  rw [type, run_bind_of_run (decisiveWord_word _ _ _ _), compositeOf_withComposite]
  rfl

/-- The kind of a node is read back without its parameters. -/
theorem kindOf_nodeRecord (number? : NodeId → Option Nat) (number : Nat) (node : Node) :
    (kindOf (nodeRecord number? number node)).run = ⟨.ok (node.kind.withParameters []), []⟩ := by
  rcases node with ⟨name, weight, concurrency, comment, kind, edges⟩
  cases kind with
  | action leaf => rfl
  | condition leaf => rfl
  | changeState destination => rfl
  | decorator decorator => exact kindOf_withDecorator rfl _ decorator
  | composite composite => exact kindOf_withComposite rfl _ composite

/-- The definitions of a node stand in its record. -/
theorem parametersOf_nodeRecord (shown : String) (number? : NodeId → Option Nat) (number : Nat)
    (node : Node) :
    parametersOf shown ((nodeRecord number? number node).parameters.getD []) =
      ⟨node.kind.parameters?.getD [], []⟩ := by
  rcases node with ⟨name, weight, concurrency, comment, kind, edges⟩
  cases kind with
  | action leaf => exact parametersOf_recordsOf _ leaf.parameters
  | condition leaf => exact parametersOf_recordsOf _ leaf.parameters
  | decorator decorator =>
      rcases decorator with ⟨_ | _, _, _, parameters⟩ <;>
        exact parametersOf_recordsOf _ parameters
  | composite composite => cases composite <;> rfl
  | changeState destination => rfl

theorem withParameters_withParameters (kind : NodeKind) (front back : ParameterSet) :
    (kind.withParameters front).withParameters back = kind.withParameters back := by
  cases kind <;> rfl

theorem withParameters_self (kind : NodeKind) :
    kind.withParameters (kind.parameters?.getD []) = kind := by
  cases kind <;> rfl

/-- Apart from its kind, a record says the same about every node. -/
theorem nodeRecord_common (number? : NodeId → Option Nat) (number : Nat) (node : Node) :
    (nodeRecord number? number node).name = node.name ∧
      (nodeRecord number? number node).weight = node.weight ∧
      (nodeRecord number? number node).concurrency = some (word node.concurrency) ∧
      (nodeRecord number? number node).comment = node.comment ∧
      (nodeRecord number? number node).id = number := by
  rcases node with ⟨name, weight, concurrency, comment, kind, edges⟩
  cases kind with
  | action | condition | changeState => exact ⟨rfl, rfl, rfl, rfl, rfl⟩
  | decorator decorator =>
      rcases decorator with ⟨_ | _, _, _, _⟩ <;> exact ⟨rfl, rfl, rfl, rfl, rfl⟩
  | composite composite => cases composite <;> exact ⟨rfl, rfl, rfl, rfl, rfl⟩

/-- The node of a record is the node without its children. -/
theorem nodeOf_nodeRecord (number? : NodeId → Option Nat) (number : Nat) (node : Node) :
    (nodeOf (nodeRecord number? number node)).run = ⟨.ok { node with edges := [] }, []⟩ := by
  rcases nodeRecord_common number? number node with ⟨name, weight, concurrency, comment, _⟩
  rw [nodeOf_run, kindOf_nodeRecord]
  simp only [parametersOf_nodeRecord, name, weight, concurrency, comment, wordOrDefault_word,
    withParameters_withParameters, withParameters_self, List.append_nil]

end Document

end BehaviorTree
