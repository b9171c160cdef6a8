import BehaviorTree.Proofs.Compiler.Mirrors
import BehaviorTree.Proofs.Document.Building
import BehaviorTree.Proofs.Document.RoundTrip
import BehaviorTree.Proofs.Tree.DetachedEdits

/-!
# Edited trees

What holds of a tree however it has come about and whatever has been edited since.  Refusals and
the views of the hierarchy do not depend on what added nodes bring with them.  Bindings do: a node
that comes with edges comes with whatever bindings these have, so it is nodes without edges that are
added there.
-/

namespace BehaviorTree

open BehaviorTree.Document

variable {tree origin : Tree}

theorem NodeKind.exists_parameters {kind : NodeKind}
    (carrier : kind.type ∈ [.action, .condition, .decorator]) :
    ∃ definitions, kind.parameters? = some definitions := by
  cases kind with
  | action leaf => exact ⟨_, rfl⟩
  | condition leaf => exact ⟨_, rfl⟩
  | decorator content => exact ⟨_, rfl⟩
  | composite content => simp [NodeKind.type] at carrier
  | changeState destination => simp [NodeKind.type] at carrier

/-! ## Bindings -/

namespace Tree

/-- A tree that has not been edited yet: a fresh one, that of a document, or a built one. -/
inductive IsSource : Tree → Prop where
  | origin {source : Tree} (isOrigin : source.IsOrigin) : IsSource source
  | built (name : String) {calls : List Builder.Call} (bare : ∀ call ∈ calls, call.IsBare)
      (ids : List NodeId) : IsSource (((Builder.new name).applyAll calls).finish ids)

theorem IsSource.anchored (isSource : tree.IsSource) : tree.Anchored := by
  cases isSource with
  | origin isOrigin => exact isOrigin.rooted.wellFormed.anchored
  | built name bare ids => exact (Builder.wellFormed_applyAll name _ bare ids).anchored

theorem IsSource.fitted (isSource : tree.IsSource) : tree.Fitted := by
  cases isSource with
  | origin isOrigin => exact isOrigin.fitted
  | built name bare ids => exact fitted_finish _ ids

/-- In an edited tree the bindings of every edge to a node that carries parameters are those that
matching with its definitions would give: exactly the defined names are bound, each with the type of
the first definition of its name. -/
theorem bindings_follow_definitions {source : Tree} (isSource : source.IsSource)
    {edits : List Edit} (bare : ∀ edit ∈ edits, edit.IsBare)
    (edited : Edit.applyAll edits source = tree) :
    (∀ id node, tree.get? id = some node → ∀ edge ∈ node.edges,
      ∀ child, tree.get? edge.child = some child →
        child.kind.type ∈ [.action, .condition, .decorator] →
          ∃ definitions, child.parameters? = some definitions ∧
            edge.bindings.matched definitions = edge.bindings ∧
            (∀ name, name ∈ edge.bindings.names ↔ name ∈ definitions.names) ∧
            ∀ binding ∈ edge.bindings,
              (definitions.find binding.name).map Parameter.type = some binding.type) ∧
      tree.matchParameters = tree := by
  rcases Edit.anchored_applyAll edits bare isSource.anchored isSource.fitted
    with ⟨anchored, fitted⟩
  rw [edited] at anchored fitted
  refine ⟨?_, fitted.matchParameters_eq anchored.nodup_ids⟩
  intro id node found edge member child childFound carrier
  rcases NodeKind.exists_parameters carrier with ⟨definitions, carried⟩
  have defined : tree.definitions? edge.child = some definitions := by
    rw [definitions?, childFound]
    exact carried
  have inStep := fitted id node found edge member definitions defined
  exact ⟨definitions, carried, inStep.matched_eq, fun _ => inStep.mem_names_iff,
    fun _ => inStep.type_eq⟩

/-- An action gets its parameters before and after it is attached, and loses one of them. -/
def parameterRun : List Edit :=
  [.addNode (.fresh (.action {})),
    .addParameter ⟨1⟩ (.ofType "count" .int),
    .addChild ⟨0⟩ ⟨1⟩ [⟨"count", .string, "7"⟩, ⟨"stale", .bool, "true"⟩],
    .addParameter ⟨1⟩ (.ofType "loud" .bool),
    .addParameter ⟨1⟩ (.ofType "loud" .int),
    .setBinding ⟨0⟩ 0 "loud" "true",
    .removeParameter ⟨1⟩ "count"]

theorem bindings_follow_definitions_parameterRun :
    (Edit.applyAll parameterRun (new "Guard")).edge? ⟨0⟩ 0 =
        some ⟨⟨1⟩, [⟨"loud", .bool, "true"⟩]⟩ ∧
      (Edit.applyAll parameterRun (new "Guard")).matchParameters =
        Edit.applyAll parameterRun (new "Guard") := by
  have bare : ∀ edit ∈ parameterRun, edit.IsBare := by
    simp [parameterRun, Edit.IsBare, Node.fresh]
  refine ⟨by decide +kernel, ?_⟩
  exact (bindings_follow_definitions (.origin (.fresh "Guard")) bare rfl).2

end Tree

/-! ## Refusals -/

/-- A refused edit changes nothing, and no edit fails half way: what it looks for after its checks
is always there. -/
theorem Edit.refused_changes_nothing (isOrigin : origin.IsOrigin) {edits : List Edit}
    (edited : applyAll edits origin = tree) (edit : Edit) :
    (∀ refusal after, edit.apply tree = (.error refusal, after) → after = tree) ∧
      edit.InRange tree ∧
      (∀ id missing, ((removeState id).apply tree).1 ≠ .error (.unknownNode missing)) ∧
      ∀ id missing, ((deleteNode id).apply tree).1 = .error (.unknownNode missing) →
        tree.get? id = none := by
  have orderly := orderly_applyAll edits isOrigin.rooted.orderly
  rw [edited] at orderly
  refine ⟨?_, inRange orderly edit, removeState_ne_unknownNode orderly, ?_⟩
  · intro refusal after
    exact eq_of_refused orderly
  · intro id missing
    exact get?_eq_none_of_deleteNode

theorem Edit.refused_changes_nothing_lastState :
    (removeState ⟨3⟩).apply (applyAll sampleRun (Tree.new "Guard")) =
      (.error .lastState, applyAll sampleRun (Tree.new "Guard")) := by
  have refused : ((removeState ⟨3⟩).apply (applyAll sampleRun (Tree.new "Guard"))).1 =
      .error .lastState := by decide +kernel
  apply Prod.ext refused
  exact (refused_changes_nothing (.fresh "Guard") rfl (removeState ⟨3⟩)).1 .lastState _
    (Prod.ext refused rfl)

/-! ## Detached work -/

/-- An edit of detached nodes changes neither the hierarchy nor the report of the compiler.  Where it
adds a node, no edge may have been waiting for this node. -/
theorem Edit.detached_unnoticed (isOrigin : origin.IsOrigin) {edits : List Edit}
    (edited : applyAll edits origin = tree) {edit : Edit}
    (referring : ∀ node, edit = .addNode node → AllReferBack edits origin)
    (detached : edit.IsDetached tree) :
    (edit.apply tree).2.hierarchy = tree.hierarchy ∧
      ∀ sets options, (edit.apply tree).2.compile sets options = tree.compile sets options := by
  subst edited
  have orderly := orderly_applyAll edits isOrigin.rooted.orderly
  have refersBack : ∀ node, edit = .addNode node → (applyAll edits origin).RefersBack := by
    intro node adds
    exact refersBack_applyAll edits isOrigin.rooted.orderly isOrigin.rooted.refersBack
      (referring node adds)
  have mirrors := mirrors_apply orderly refersBack detached
  constructor
  · simpa using mirrors.hierarchy
  · intro sets options
    exact mirrors.compile sets options

/-- A sequence shares its child with the hierarchy; it is deleted and given back with this child. -/
def sharingRun : List Edit :=
  [.addNode (.fresh (.action {})),
    .addNode (.fresh (.composite .sequence)),
    .addChild ⟨0⟩ ⟨1⟩ [],
    .addChild ⟨2⟩ ⟨1⟩ [],
    .deleteNode ⟨2⟩,
    .addNode { Node.fresh (.composite .sequence) with edges := [⟨⟨1⟩, []⟩] }]

theorem Edit.allReferBack_sharingRun : AllReferBack sharingRun (Tree.new "Guard") := by
  refine ⟨nofun, nofun, trivial, trivial, trivial, ?_, trivial⟩
  have created : (applyAll (sharingRun.take 5) (Tree.new "Guard")).created = 3 := by
    decide +kernel
  change ∀ child ∈ ([⟨1⟩] : List NodeId),
    child.index < (applyAll (sharingRun.take 5) (Tree.new "Guard")).created
  simp [created]

theorem Edit.detached_unnoticed_sharingRun :
    ((removeChild ⟨3⟩ ⟨1⟩).apply (applyAll sharingRun (Tree.new "Guard"))).1 = .ok (.bindings []) ∧
      ((removeChild ⟨3⟩ ⟨1⟩).apply (applyAll sharingRun (Tree.new "Guard"))).2.hierarchy =
        (applyAll sharingRun (Tree.new "Guard")).hierarchy ∧
      ∀ sets options,
        ((addNode (.fresh (.action {}))).apply
            (applyAll sharingRun (Tree.new "Guard"))).2.compile sets options =
          (applyAll sharingRun (Tree.new "Guard")).compile sets options := by
  have outside : (removeChild ⟨3⟩ ⟨1⟩).IsDetached (applyAll sharingRun (Tree.new "Guard")) := by
    change ⟨3⟩ ∉ (applyAll sharingRun (Tree.new "Guard")).hierarchy
    decide +kernel
  have added : (addNode (.fresh (.action {}))).IsDetached
      (applyAll sharingRun (Tree.new "Guard")) := trivial
  refine ⟨by decide +kernel, ?_, ?_⟩
  · exact (detached_unnoticed (.fresh "Guard") rfl (by simp) outside).1
  · exact (detached_unnoticed (.fresh "Guard") rfl (fun _ _ => allReferBack_sharingRun) added).2

/-! ## Views -/

namespace Tree

/-- What is listed, what is searched for and what is numbered of the hierarchy is the same. -/
structure ViewsAgree (tree : Tree) : Prop where
  distinct : tree.hierarchy.Nodup
  mem_hierarchy : ∀ id, id ∈ tree.hierarchy ↔ tree.IsReached id ∧ id ∈ tree.pool.ids
  searched : ∀ id ∈ tree.pool.ids, (id ∈ tree.hierarchy ↔ tree.isInHierarchy id = true)
  parents : ∀ id, tree.isInHierarchy id = true ↔
    id ∈ tree.states ∨ ∃ parent ∈ tree.parentsOf id, parent ∈ tree.hierarchy
  mem_extras : ∀ id, id ∈ tree.extras ↔ id ∈ tree.pool.ids ∧ id ∉ tree.hierarchy
  extras_ascending : tree.extras.Pairwise (·.index < ·.index)
  numbered_eq : tree.numbered = tree.hierarchy ++ tree.extras
  numbered_perm : tree.numbered.Perm tree.pool.ids
  number : ∀ id ∈ tree.pool.ids, ∃ number, tree.number? id = some number ∧
    ∀ other, tree.numbered[other]? = some id ↔ other = number

theorem Orderly.viewsAgree (orderly : tree.Orderly) : tree.ViewsAgree where
  distinct := nodup_hierarchy tree
  mem_hierarchy := by
    intro id
    rw [mem_hierarchy_iff, Pool.mem_ids_iff]
    rfl
  searched := fun _ => mem_hierarchy_iff_isInHierarchy
  parents := fun _ => isInHierarchy_iff_parent orderly.nodup_ids
  mem_extras := fun _ => mem_extras_iff
  extras_ascending := orderly.extras_ascending
  numbered_eq := rfl
  numbered_perm := Tree.numbered_perm orderly.nodup_ids
  number := fun _ => exists_number? orderly.nodup_ids

/-- The views of the hierarchy agree in every edited tree.  As long as no added node brings edges
with it, no identity outside the pool is found in the hierarchy either. -/
theorem views_agree (isOrigin : origin.IsOrigin) {edits : List Edit}
    (edited : Edit.applyAll edits origin = tree) :
    tree.ViewsAgree ∧
      ((∀ edit ∈ edits, edit.IsBare) →
        ∀ id, id ∈ tree.hierarchy ↔ tree.isInHierarchy id = true) := by
  subst edited
  constructor
  · exact (Edit.orderly_applyAll edits isOrigin.rooted.orderly).viewsAgree
  · intro bare
    exact (Edit.rooted_applyAll edits bare isOrigin.rooted).mem_hierarchy_iff_isInHierarchy

theorem views_agree_sampleRun :
    (Edit.applyAll Edit.sampleRun (new "Guard")).ViewsAgree ∧
      ∀ id, id ∈ (Edit.applyAll Edit.sampleRun (new "Guard")).hierarchy ↔
        (Edit.applyAll Edit.sampleRun (new "Guard")).isInHierarchy id = true := by
  have bare : ∀ edit ∈ Edit.sampleRun, edit.IsBare := by
    simp [Edit.sampleRun, Edit.IsBare, Node.fresh]
  rcases views_agree (.fresh "Guard") (rfl : Edit.applyAll Edit.sampleRun (new "Guard") = _)
    with ⟨agree, searched⟩
  exact ⟨agree, searched bare⟩

end Tree

end BehaviorTree
