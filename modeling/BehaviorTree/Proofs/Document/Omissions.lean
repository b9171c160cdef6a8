import BehaviorTree.Proofs.Document.Assembly
import BehaviorTree.Proofs.Document.Warnings
import BehaviorTree.Proofs.Json.Rendering

/-!
# Documents with bad elements

A load leaves out the records and entries that it cannot read.  Nothing else depends on them: the
document without them is loaded as the same tree, with the same warnings but for those about what
has been left out.

This holds because no step of the assembly looks at the warnings before it.  All that a bad element
changes for the ones behind it is a warning and their position, and the position of an element that
is kept plays no part either.
-/

namespace BehaviorTree.Document

open BehaviorTree.Json Noted

/-- Whether the warning says that an element of the document has been left out. -/
def LoadWarning.isDrop : LoadWarning → Bool
  | droppedBehavior _ _ => true
  | droppedHierarchy _ _ => true
  | _ => false

/-! ## Steps and warnings -/

namespace Assembly

def withWarnings (assembly : Assembly) (warnings : List LoadWarning) : Assembly :=
  { assembly with warnings }

@[simp]
theorem builder_withWarnings (assembly : Assembly) (warnings : List LoadWarning) :
    (assembly.withWarnings warnings).builder = assembly.builder :=
  rfl

@[simp]
theorem node?_withWarnings (assembly : Assembly) (warnings : List LoadWarning) (id : Int) :
    (assembly.withWarnings warnings).node? id = assembly.node? id :=
  rfl

/-- The step adds warnings of a kind, and the warnings before it play no part in it. -/
def Reports (kind : LoadWarning → Prop) (step : Assembly → Assembly) : Prop :=
  ∀ assembly, ∃ more, (∀ warning ∈ more, kind warning) ∧
    ∀ warnings, step (assembly.withWarnings warnings) =
      (step assembly).withWarnings (warnings ++ more)

namespace Reports

variable {kind : LoadWarning → Prop} {step : Assembly → Assembly}

theorem warnings_eq (reports : Reports kind step) (assembly : Assembly) :
    ∃ more, (∀ warning ∈ more, kind warning) ∧
      (step assembly).warnings = assembly.warnings ++ more := by
  rcases reports assembly with ⟨more, each, added⟩
  exact ⟨more, each, congrArg Assembly.warnings (added assembly.warnings)⟩

theorem add {warnings : List LoadWarning} (each : ∀ warning ∈ warnings, kind warning) :
    Reports kind fun assembly => assembly.withWarnings (assembly.warnings ++ warnings) :=
  fun _ => ⟨warnings, each, fun _ => rfl⟩

theorem warn {warning : LoadWarning} (holds : kind warning) : Reports kind (·.warn warning) :=
  add fun _ member => List.mem_singleton.mp member ▸ holds

theorem addNode (recordId : Int) (node : Node) : Reports kind (·.addNode recordId node) := by
  intro assembly
  refine ⟨[], nofun, fun warnings => ?_⟩
  rw [List.append_nil]
  rfl

theorem setBuilder (builder : Builder) :
    Reports kind fun assembly => { assembly with builder } :=
  fun _ => ⟨[], nofun, fun warnings => by rw [List.append_nil]; rfl⟩

theorem comp {next : Assembly → Assembly} (first : Reports kind step) (second : Reports kind next) :
    Reports kind fun assembly => next (step assembly) := by
  intro assembly
  rcases first assembly with ⟨early, earlyKind, afterFirst⟩
  rcases second (step assembly) with ⟨late, lateKind, afterSecond⟩
  refine ⟨early ++ late, ?_, ?_⟩
  · intro warning member
    exact (List.mem_append.mp member).elim (earlyKind warning) (lateKind warning)
  · intro warnings
    beta_reduce
    rw [afterFirst, afterSecond, List.append_assoc]

theorem foldl {Part : Type} {step : Assembly → Part → Assembly}
    (each : ∀ part, Reports kind (step · part)) (parts : List Part) :
    Reports kind fun assembly => parts.foldl step assembly := by
  induction parts with
  | nil => exact fun assembly => ⟨[], nofun, fun warnings => by rw [List.append_nil]; rfl⟩
  | cons part parts ih => exact (each part).comp ih

end Reports

/-! ### Steps on the hierarchy -/

section Hierarchy

variable {kind : LoadWarning → Prop}
  (values : ∀ warning : LoadWarning, warning.concernsValue = true → kind warning)
  (unresolved : ∀ id, kind (.unresolvedEdge id))
  (rejected : ∀ parent child reason, kind (.rejectedEdge parent child reason))
include values

theorem reports_values {α : Type} {noted : Noted α} (onValues : noted.OnValues) :
    Reports kind fun assembly => assembly.withWarnings (assembly.warnings ++ noted.warnings) :=
  Reports.add fun warning member => values warning (onValues warning member)

include unresolved rejected

theorem reports_addChild (entryId : Int) (parent : NodeId) (record : ChildRecord) :
    Reports kind (addChild entryId parent · record) := by
  intro assembly
  simp only [addChild, node?_withWarnings]
  split
  · exact Reports.warn (unresolved record.childId) assembly
  · have bindings := reports_values values (onValues_parametersOf
      (((assembly.builder.get? parent).map Node.name).getD "") record.parameters)
    simp only [builder_withWarnings]
    split
    · next reason refused =>
        have warned : Reports kind (·.warn (.rejectedEdge entryId record.childId reason)) :=
          Reports.warn (rejected entryId record.childId reason)
        exact bindings.comp warned assembly
    · next builder accepted => exact bindings.comp (Reports.setBuilder builder) assembly

theorem reports_addEntry (entry : HierarchyEntry) : Reports kind (·.addEntry entry) := by
  intro assembly
  simp only [addEntry, node?_withWarnings]
  split
  · exact Reports.warn (unresolved entry.id) assembly
  · next parent named =>
      exact Reports.foldl (reports_addChild values unresolved rejected entry.id parent)
        entry.children assembly

end Hierarchy

/-! ### Steps that leave nothing out -/

/-- The step leaves out no element and does not depend on what has been left out. -/
abbrev Keeps (step : Assembly → Assembly) : Prop :=
  Reports (·.isDrop = false) step

theorem keeps_warn {warning : LoadWarning} (other : warning.isDrop = false) :
    Keeps (·.warn warning) :=
  Reports.warn other

theorem not_isDrop_of_concernsValue (warning : LoadWarning)
    (concerns : warning.concernsValue = true) : warning.isDrop = false := by
  cases warning <;> first | rfl | cases concerns

theorem keeps_addEntry (entry : HierarchyEntry) : Keeps (·.addEntry entry) :=
  reports_addEntry not_isDrop_of_concernsValue (fun _ => rfl) (fun _ _ _ => rfl) entry

theorem keeps_recoverState (rootId : Option Int) : Keeps (·.recoverState rootId) := by
  intro assembly
  simp only [recoverState, node?_withWarnings, builder_withWarnings]
  split
  · next root builder done =>
      have warned : Keeps (·.warn (.legacyMigration (((builder.get? root).map Node.name).getD ""))) :=
        keeps_warn rfl
      exact warned { assembly with builder := builder.setDefaultState _, states := [root] }
  · exact keeps_warn rfl assembly

theorem keeps_recovered (rootId : Option Int) : Keeps (·.recovered rootId) := by
  intro assembly
  by_cases none : assembly.states.isEmpty = true
  · have steps : ∀ warnings, (assembly.withWarnings warnings).recovered rootId =
        (assembly.withWarnings warnings).recoverState rootId := fun _ => if_pos none
    have step : assembly.recovered rootId = assembly.recoverState rootId := if_pos none
    simp only [steps, step]
    exact keeps_recoverState rootId assembly
  · have steps : ∀ warnings, (assembly.withWarnings warnings).recovered rootId =
        assembly.withWarnings warnings := fun _ => if_neg none
    have step : assembly.recovered rootId = assembly := if_neg none
    simp only [steps, step]
    exact ⟨[], nofun, fun warnings => by rw [List.append_nil]⟩

/-! ## Elements -/

def drops (assembly : Assembly) : List LoadWarning :=
  assembly.warnings.filter LoadWarning.isDrop

def withoutDrops (assembly : Assembly) : Assembly :=
  assembly.withWarnings (assembly.warnings.filter fun warning => !warning.isDrop)

theorem Keeps.withoutDrops {step : Assembly → Assembly} (keeps : Keeps step)
    (assembly : Assembly) : (step assembly).withoutDrops = step assembly.withoutDrops := by
  rcases keeps assembly with ⟨more, others, added⟩
  have warnings := congrArg Assembly.warnings (added assembly.warnings)
  have none : more.filter (fun warning => !warning.isDrop) = more := by
    rw [List.filter_eq_self]
    intro warning member
    rw [others warning member]
    rfl
  rw [Assembly.withoutDrops, Assembly.withoutDrops, added]
  change (step assembly).warnings = assembly.warnings ++ more at warnings
  rw [warnings, List.filter_append, none]

theorem Keeps.drops {step : Assembly → Assembly} (keeps : Keeps step) (assembly : Assembly) :
    (step assembly).drops = assembly.drops := by
  rcases keeps.warnings_eq assembly with ⟨more, others, warnings⟩
  have none : more.filter LoadWarning.isDrop = [] := by
    rw [List.filter_eq_nil_iff]
    intro warning member
    simp [others warning member]
  rw [Assembly.drops, Assembly.drops, warnings, List.filter_append, none, List.append_nil]

/-- The step leaves out the elements that there is a reason against, and keeps the others, wherever
they stand. -/
structure Sorts (step : Assembly → Value × Nat → Assembly) (against? : Value → Option String)
    (report : Nat → String → LoadWarning) : Prop where
  isDrop : ∀ index reason, (report index reason).isDrop = true
  dropped : ∀ value reason, against? value = some reason → ∀ assembly index,
    step assembly (value, index) = assembly.warn (report index reason)
  kept : ∀ value, against? value = none → ∃ keep, Keeps keep ∧ ∀ assembly index,
    step assembly (value, index) = keep assembly

namespace Sorts

variable {step : Assembly → Value × Nat → Assembly} {against? : Value → Option String}
  {report : Nat → String → LoadWarning}

theorem withoutDrops_foldl (sorts : Sorts step against? report) (values : List Value)
    (start other : Nat) (assembly : Assembly) :
    ((values.zipIdx start).foldl step assembly).withoutDrops =
      ((values.filter fun value => (against? value).isNone).zipIdx other).foldl step
        assembly.withoutDrops := by
  induction values generalizing start other assembly with
  | nil => rfl
  | cons value values ih =>
      rw [List.zipIdx_cons, List.foldl_cons]
      rcases verdict : against? value with _ | reason
      · rcases sorts.kept value verdict with ⟨keep, keeps, same⟩
        rw [List.filter_cons_of_pos (by simp [verdict]), List.zipIdx_cons, List.foldl_cons,
          ih _ (other + 1), same, same, keeps.withoutDrops]
      · have muted : (step assembly (value, start)).withoutDrops = assembly.withoutDrops := by
          rw [sorts.dropped value reason verdict]
          simp [Assembly.withoutDrops, withWarnings, warn, sorts.isDrop]
        rw [List.filter_cons_of_neg (by simp [verdict]), ih _ other, muted]

theorem drops_foldl (sorts : Sorts step against? report) (values : List Value) (start : Nat)
    (assembly : Assembly) :
    ((values.zipIdx start).foldl step assembly).drops =
      assembly.drops ++ (values.zipIdx start).filterMap fun (value, index) =>
        (against? value).map (report index) := by
  induction values generalizing start assembly with
  | nil => simp
  | cons value values ih =>
      rw [List.zipIdx_cons, List.foldl_cons, ih]
      rcases verdict : against? value with _ | reason
      · rcases sorts.kept value verdict with ⟨keep, keeps, same⟩
        simp [verdict, same, keeps.drops]
      · simp [verdict, sorts.dropped value reason verdict, Assembly.drops, warn, sorts.isDrop]

end Sorts

end Assembly

/-- Why a load leaves out an element of the behaviors, if it does. -/
def againstBehavior? (value : Value) : Option String :=
  match BehaviorRecord.shape.decode value with
  | .error reason => some reason
  | .ok record =>
      match (nodeOf record).run.result with
      | .error reason => some reason
      | .ok _ => none

/-- Why a load leaves out an element of the hierarchy, if it does. -/
def againstHierarchy? (value : Value) : Option String :=
  match HierarchyEntry.shape.decode value with
  | .error reason => some reason
  | .ok _ => none

/-! ### Records that become no nodes -/

/-- A failure comes before all warnings. -/
def FailsFirst {α : Type} (noted : Noted (Except String α)) : Prop :=
  ∀ reason, noted.result = .error reason → noted.warnings = []

/-- What cannot fail may follow. -/
theorem FailsFirst.bind_run {α β : Type} {noted : ExceptT String Noted α}
    {next : α → ExceptT String Noted β} (first : FailsFirst noted.run)
    (later : ∀ result, ∃ answer, (next result).run.result = .ok answer) :
    FailsFirst (noted >>= next).run := by
  intro reason failed
  change (ExceptT.bindCont next noted.run.result).result = .error reason at failed
  change noted.run.warnings ++ (ExceptT.bindCont next noted.run.result).warnings = []
  rcases early : noted.run.result with other | result
  · rw [first other early]
    rfl
  · rcases later result with ⟨answer, done⟩
    rw [early] at failed
    exact nomatch done.symm.trans failed

theorem failsFirst_decisiveWord {α : Type} [Vocabulary α] (node field : String) (fallback : α)
    (written : Option String) : FailsFirst (decisiveWord node field fallback written).run := by
  intro reason failed
  cases written with
  | none => cases failed
  | some written =>
      simp only [decisiveWord] at failed ⊢
      split at failed
      · cases failed
      · rfl

theorem failsFirst_kindOf (record : BehaviorRecord) : FailsFirst (kindOf record).run := by
  rw [kindOf]
  split
  · exact fun _ _ => rfl
  · exact fun _ _ => rfl
  · exact fun _ _ => rfl
  · exact (failsFirst_decisiveWord _ _ _ _).bind_run fun _ => ⟨_, rfl⟩
  · exact (failsFirst_decisiveWord _ _ _ _).bind_run fun _ => ⟨_, rfl⟩
  · exact fun _ _ => rfl

theorem failsFirst_nodeOf (record : BehaviorRecord) : FailsFirst (nodeOf record).run :=
  (failsFirst_kindOf record).bind_run fun _ => ⟨_, rfl⟩

/-! ### Steps on elements -/

namespace Assembly

theorem sorts_addBehavior : Sorts addBehavior againstBehavior? .droppedBehavior where
  isDrop := fun _ _ => rfl
  dropped := by
    intro value reason against assembly index
    rw [againstBehavior?] at against
    rw [addBehavior]
    split at against
    · next malformed =>
        rw [Option.some.injEq] at against
        rw [malformed, against]
    · next record decoded =>
        split at against
        · next failed =>
            rw [Option.some.injEq] at against
            simp only [decoded, failed, against, failsFirst_nodeOf record _ failed, List.append_nil]
        · cases against
  kept := by
    intro value fine
    rw [againstBehavior?] at fine
    split at fine
    · cases fine
    · next record decoded =>
        split at fine
        · cases fine
        · next node built =>
            refine ⟨_, (reports_values not_isDrop_of_concernsValue (onValues_nodeOf record)).comp
              (Reports.addNode record.id node), fun assembly index => ?_⟩
            simp only [addBehavior, decoded, built]
            rfl

theorem sorts_addHierarchy : Sorts addHierarchy againstHierarchy? .droppedHierarchy where
  isDrop := fun _ _ => rfl
  dropped := by
    intro value reason against assembly index
    rw [againstHierarchy?] at against
    rw [addHierarchy]
    split at against
    · next malformed =>
        rw [Option.some.injEq] at against
        rw [malformed, against]
    · cases against
  kept := by
    intro value fine
    rw [againstHierarchy?] at fine
    split at fine
    · cases fine
    · next entry decoded =>
        refine ⟨_, keeps_addEntry entry, fun assembly index => ?_⟩
        simp only [addHierarchy, decoded]

end Assembly

/-! ## Drafts -/

namespace TreeDraft

/-- The draft without the elements that a load leaves out. -/
def withoutDropped (draft : TreeDraft) : TreeDraft :=
  { draft with
    behaviors := draft.behaviors.filter fun value => (againstBehavior? value).isNone
    hierarchy := draft.hierarchy.filter fun value => (againstHierarchy? value).isNone }

/-- What is said about the elements that a load leaves out: each has a warning, and no other element
has one. -/
def drops (draft : TreeDraft) : List LoadWarning :=
  (draft.behaviors.zipIdx.filterMap fun (value, index) =>
      (againstBehavior? value).map (.droppedBehavior index)) ++
    draft.hierarchy.zipIdx.filterMap fun (value, index) =>
      (againstHierarchy? value).map (.droppedHierarchy index)

theorem withoutDrops_assembled (draft : TreeDraft) :
    draft.assembled.withoutDrops = draft.withoutDropped.assembled := by
  rw [assembled, Assembly.sorts_addHierarchy.withoutDrops_foldl _ 0 0,
    Assembly.sorts_addBehavior.withoutDrops_foldl _ 0 0]
  rfl

theorem drops_assembled (draft : TreeDraft) : draft.assembled.drops = draft.drops := by
  rw [assembled, Assembly.sorts_addHierarchy.drops_foldl, Assembly.sorts_addBehavior.drops_foldl]
  rfl

theorem loaded_withoutDropped (draft : TreeDraft) :
    draft.withoutDropped.loaded =
        ⟨draft.loaded.tree, draft.loaded.warnings.filter fun warning => !warning.isDrop⟩ ∧
      draft.loaded.warnings.filter LoadWarning.isDrop = draft.drops := by
  have keeps := Assembly.keeps_recovered draft.rootId
  have same : draft.withoutDropped.recovered = draft.recovered.withoutDrops := by
    rw [TreeDraft.recovered, ← withoutDrops_assembled]
    exact (keeps.withoutDrops draft.assembled).symm
  refine ⟨?_, ?_⟩
  · rw [loaded_eq, same]
    rfl
  · rw [← drops_assembled]
    exact keeps.drops draft.assembled

end TreeDraft

end BehaviorTree.Document

namespace BehaviorTree.Tree

open BehaviorTree.Document BehaviorTree.Json

/-- What a load leaves out has a warning of its own and no other effect: any text of the document
without it is loaded as the same tree with the other warnings. -/
theorem load_ignores_dropped {text : String} {draft : TreeDraft}
    (decoded : TreeDraft.shape.read text = .ok draft) :
    ∃ loaded, load text = .ok loaded ∧
      loaded.warnings.filter LoadWarning.isDrop = draft.drops ∧
      ∀ reduced, TreeDraft.shape.read reduced = .ok draft.withoutDropped →
        load reduced =
          .ok ⟨loaded.tree, loaded.warnings.filter fun warning => !warning.isDrop⟩ := by
  rcases draft.loaded_withoutDropped with ⟨same, reported⟩
  refine ⟨draft.loaded, load_of_read decoded, reported, ?_⟩
  intro reduced decodedReduced
  rw [load_of_read decodedReduced, same]

/-- A priority selector over an action whose concurrency is no word, and over a record that is
missing, behind other elements. -/
def litteredDocument (behaviors hierarchy : List Value) : Value :=
  .object [
    ("Behaviors", .list <| behaviors ++ [
      .object [("BehaviorType", .text "Composite"), ("CompositeType", .text "Priority"),
        ("Id", .ofInt 0), ("Name", .text "Root")],
      .object [("BehaviorType", .text "Action"), ("Concurrency", .text "Never"),
        ("Id", .ofInt 1), ("Name", .text "Go")]]),
    ("Hierarchy", .list <| hierarchy ++ [
      .object [("Id", .ofInt 0), ("Children", .list [
        .object [("ChildId", .ofInt 1)], .object [("ChildId", .ofInt 5)]])]])]

/-- A number, and a record of an unknown type with the identity of the selector. -/
def litter : List Value :=
  [.ofInt 7, .object [("BehaviorType", .text "Composite"), ("CompositeType", .text "Realm"),
    ("Id", .ofInt 0)]]

theorem load_ignores_dropped_littered :
    ∃ draft loaded, TreeDraft.shape.read (litteredDocument litter [.null]).render = .ok draft ∧
      load (litteredDocument litter [.null]).render = .ok loaded ∧
      loaded.warnings.filter LoadWarning.isDrop = draft.drops ∧ draft.drops.length = 3 ∧
      load (litteredDocument [] []).render = .ok ⟨loaded.tree,
        [.unknownValue "Go" "Concurrency" "Never" "Unlimit", .unresolvedEdge 5,
          .legacyMigration "Root"]⟩ := by
  have computed : (TreeDraft.shape.read (litteredDocument litter [.null]).render).toOption.map
      (fun draft =>
        (draft.drops.length, draft.loaded.warnings.filter fun warning => !warning.isDrop)) =
      some (3, [.unknownValue "Go" "Concurrency" "Never" "Unlimit", .unresolvedEdge 5,
        .legacyMigration "Root"]) := by
    rw [Shape.read, tokens_render]
    decide +kernel
  have reduced : (TreeDraft.shape.read (litteredDocument litter [.null]).render).map
      TreeDraft.withoutDropped = TreeDraft.shape.read (litteredDocument [] []).render := by
    rw [Shape.read, Shape.read, tokens_render, tokens_render]
    decide +kernel
  rcases exists_of_read computed with ⟨draft, decoded, summary⟩
  rcases load_ignores_dropped decoded with ⟨loaded, accepted, reported, same⟩
  obtain rfl : draft.loaded = loaded := Except.ok.inj ((load_of_read decoded).symm.trans accepted)
  rcases Prod.mk.inj summary with ⟨dropped, others⟩
  rw [decoded] at reduced
  refine ⟨draft, _, decoded, accepted, reported, dropped, ?_⟩
  rw [← others]
  exact same _ reduced.symm

end BehaviorTree.Tree
