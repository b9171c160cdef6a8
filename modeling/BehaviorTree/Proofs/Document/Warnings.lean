import BehaviorTree.Document.TreeText
import Mathlib.Data.List.Infix

/-!
# Warnings of loads

A load only ever adds warnings.  One that ends without any has therefore read every record of its
document.  The warnings that concern edges come from the hierarchy alone: all that reading a record or
a parameter adds is that values have been replaced.
-/

namespace BehaviorTree

open BehaviorTree.Document BehaviorTree.Json

namespace Document

namespace Assembly

/-- A step keeps all earlier warnings. -/
theorem prefix_foldl {α : Type} {step : Assembly → α → Assembly}
    (kept : ∀ assembly element, assembly.warnings <+: (step assembly element).warnings)
    (elements : List α) (assembly : Assembly) :
    assembly.warnings <+: (elements.foldl step assembly).warnings := by
  induction elements generalizing assembly with
  | nil => exact List.prefix_refl _
  | cons element elements ih => exact (kept assembly element).trans (ih _)

theorem prefix_addBehavior (assembly : Assembly) (element : Value × Nat) :
    assembly.warnings <+: (assembly.addBehavior element).warnings := by
  rw [addBehavior]
  split
  · exact List.prefix_append _ _
  · dsimp only
    split
    · exact (List.prefix_append _ _).trans (List.prefix_append _ _)
    · exact List.prefix_append _ _

theorem prefix_addChild (entryId : Int) (parent : NodeId) (assembly : Assembly)
    (record : ChildRecord) :
    assembly.warnings <+: (assembly.addChild entryId parent record).warnings := by
  rw [addChild]
  split
  · exact List.prefix_append _ _
  · dsimp only
    split
    · exact (List.prefix_append _ _).trans (List.prefix_append _ _)
    · exact List.prefix_append _ _

theorem prefix_addHierarchy (assembly : Assembly) (element : Value × Nat) :
    assembly.warnings <+: (assembly.addHierarchy element).warnings := by
  rw [addHierarchy]
  split
  · exact List.prefix_append _ _
  · rw [addEntry]
    split
    · exact List.prefix_append _ _
    · exact prefix_foldl (prefix_addChild _ _) _ _

theorem recoverState_warnings_ne_nil (assembly : Assembly) (rootId : Option Int) :
    (assembly.recoverState rootId).warnings ≠ [] := by
  rw [recoverState]
  split <;> exact List.append_ne_nil_of_right_ne_nil _ (List.cons_ne_nil _ _)

/-- Without a warning at the end no record has been dropped. -/
theorem decode_of_foldl_addBehavior {elements : List (Value × Nat)} {assembly : Assembly}
    (clean : (elements.foldl addBehavior assembly).warnings = []) :
    ∀ element ∈ elements, ∃ record, BehaviorRecord.shape.decode element.1 = .ok record := by
  induction elements generalizing assembly with
  | nil => nofun
  | cons element elements ih =>
      have step : (assembly.addBehavior element).warnings = [] :=
        List.prefix_nil.mp (clean ▸ prefix_foldl prefix_addBehavior elements _)
      intro other member
      rcases List.mem_cons.mp member with rfl | later
      · rcases decoded : BehaviorRecord.shape.decode other.1 with reason | record
        · rw [addBehavior, decoded] at step
          exact absurd step (List.append_ne_nil_of_right_ne_nil _ (List.cons_ne_nil _ _))
        · exact ⟨record, rfl⟩
      · exact ih clean other later

end Assembly

/-- A load without warnings has read every record. -/
theorem TreeDraft.decode_of_clean {draft : TreeDraft} (clean : draft.loaded.warnings = []) :
    ∀ value ∈ draft.behaviors, ∃ record, BehaviorRecord.shape.decode value = .ok record := by
  have assembled : draft.assembled.warnings = [] := by
    rw [TreeDraft.loaded] at clean
    dsimp only at clean
    split at clean
    · exact absurd clean (Assembly.recoverState_warnings_ne_nil _ _)
    · exact clean
  have behaviors : (draft.behaviors.zipIdx.foldl Assembly.addBehavior draft.start).warnings = [] :=
    List.prefix_nil.mp (assembled ▸ Assembly.prefix_foldl Assembly.prefix_addHierarchy _ _)
  intro value member
  rcases List.getElem?_of_mem member with ⟨index, place⟩
  exact Assembly.decode_of_foldl_addBehavior behaviors (value, index)
    (List.mem_zipIdx_iff_getElem?.mpr place)

/-! ## Warnings about values and about edges -/

/-- Whether the warning says that a value of a record has been replaced. -/
def LoadWarning.concernsValue : LoadWarning → Bool
  | unknownValue _ _ _ _ => true
  | missingValue _ _ _ => true
  | _ => false

/-- Whether the warning says that a part of the hierarchy is missing in the tree. -/
def LoadWarning.concernsEdges : LoadWarning → Bool
  | droppedHierarchy _ _ => true
  | unresolvedEdge _ => true
  | rejectedEdge _ _ _ => true
  | _ => false

namespace Noted

variable {α β : Type}

/-- On the way to the result only values are replaced. -/
def OnValues (noted : Noted α) : Prop :=
  ∀ warning ∈ noted.warnings, warning.concernsValue = true

/-- On the way to the result no warning concerns edges. -/
def Quiet (noted : Noted α) : Prop :=
  noted.warnings.filter LoadWarning.concernsEdges = []

theorem quiet_note {warning : LoadWarning} (other : warning.concernsEdges = false) :
    (note warning).Quiet := by
  simp [Quiet, note, other]

theorem OnValues.filter_eq_nil {noted : Noted α} {kind : LoadWarning → Bool}
    (onValues : noted.OnValues)
    (other : ∀ warning : LoadWarning, warning.concernsValue = true → kind warning = false) :
    noted.warnings.filter kind = [] := by
  rw [List.filter_eq_nil_iff]
  intro warning member
  rw [other warning (onValues warning member)]
  exact Bool.false_ne_true

theorem OnValues.quiet {noted : Noted α} (onValues : noted.OnValues) : noted.Quiet := by
  apply onValues.filter_eq_nil
  intro warning concerns
  cases warning <;> first | rfl | cases concerns

/-! ### Steps -/

theorem onValues_pure (result : α) : OnValues (pure result) :=
  nofun

theorem onValues_note {warning : LoadWarning} (concerns : warning.concernsValue = true) :
    (note warning).OnValues := by
  intro other member
  rw [List.mem_singleton.mp member]
  exact concerns

theorem OnValues.bind {noted : Noted α} {next : α → Noted β} (first : noted.OnValues)
    (later : ∀ result, (next result).OnValues) : (noted >>= next).OnValues := by
  intro warning member
  rcases List.mem_append.mp member with early | late
  · exact first warning early
  · exact later noted.result warning late

/-- The same for a step that can also fail. -/
theorem OnValues.bind_run {noted : ExceptT String Noted α} {next : α → ExceptT String Noted β}
    (first : noted.run.OnValues) (later : ∀ result, (next result).run.OnValues) :
    (noted >>= next).run.OnValues := by
  have continued : ∀ result : Except String α, OnValues (ExceptT.bindCont next result) := by
    intro result
    cases result with
    | error reason => exact onValues_pure _
    | ok result => exact later result
  exact OnValues.bind first continued

theorem OnValues.lift {noted : Noted α} (onValues : noted.OnValues) :
    (monadLift noted : ExceptT String Noted α).run.OnValues :=
  OnValues.bind onValues fun result => onValues_pure (Except.ok result)

theorem onValues_mapM_loop {step : α → Noted β} (onValues : ∀ element, (step element).OnValues)
    (elements : List α) (front : List β) : (List.mapM.loop step elements front).OnValues := by
  induction elements generalizing front with
  | nil => exact onValues_pure _
  | cons element elements ih =>
      exact (onValues element).bind fun result => ih (result :: front)

end Noted

open Noted

/-! ### Records -/

theorem onValues_wordOrDefault {α : Type} [Vocabulary α] [Inhabited α] (node field : String)
    (written : Option String) : (wordOrDefault node field written : Noted α).OnValues := by
  cases written with
  | none => exact onValues_pure _
  | some written =>
      simp only [wordOrDefault]
      split
      · exact onValues_pure _
      · exact (onValues_note rfl).bind fun _ => onValues_pure _

theorem onValues_decisiveWord {α : Type} [Vocabulary α] (node field : String) (fallback : α)
    (written : Option String) : (decisiveWord node field fallback written).run.OnValues := by
  cases written with
  | none => exact (onValues_note rfl).lift.bind_run fun _ => onValues_pure _
  | some written =>
      simp only [decisiveWord]
      split <;> exact onValues_pure _

theorem onValues_parametersOf (node : String) (records : List ParameterRecord) :
    (parametersOf node records).OnValues := by
  apply onValues_mapM_loop
  intro record
  exact (onValues_wordOrDefault _ _ _).bind fun _ => onValues_pure _

theorem onValues_compositeOf (record : BehaviorRecord) (type : CompositeType) :
    (compositeOf record type).OnValues := by
  cases type with
  | sequence => exact onValues_pure _
  | random => exact onValues_pure _
  | loop => exact onValues_pure _
  | priority => exact (onValues_wordOrDefault _ _ _).bind fun _ => onValues_pure _
  | state => exact (onValues_wordOrDefault _ _ _).bind fun _ => onValues_pure _
  | concurrent =>
      apply (onValues_wordOrDefault _ _ _).bind
      intro failure
      exact (onValues_wordOrDefault _ _ _).bind fun _ => onValues_pure _

theorem onValues_decoratorKindOf (record : BehaviorRecord) (type : DecoratorType) :
    (decoratorKindOf record type).OnValues := by
  cases type with
  | default => exact onValues_pure _
  | accessLimit => exact (onValues_wordOrDefault _ _ _).bind fun _ => onValues_pure _

theorem onValues_kindOf (record : BehaviorRecord) : (kindOf record).run.OnValues := by
  rw [kindOf]
  split
  · exact onValues_pure _
  · exact onValues_pure _
  · exact onValues_pure _
  · apply (onValues_decisiveWord _ _ _ _).bind_run
    intro type
    exact (onValues_decoratorKindOf record type).lift.bind_run fun _ => onValues_pure _
  · apply (onValues_decisiveWord _ _ _ _).bind_run
    intro type
    exact (onValues_compositeOf record type).lift.bind_run fun _ => onValues_pure _
  · exact onValues_pure _

theorem onValues_nodeOf (record : BehaviorRecord) : (nodeOf record).run.OnValues := by
  rw [nodeOf]
  apply (onValues_kindOf record).bind_run
  intro kind
  apply (onValues_parametersOf _ _).lift.bind_run
  intro parameters
  exact (onValues_wordOrDefault _ _ _).lift.bind_run fun _ => onValues_pure _

end Document

end BehaviorTree
