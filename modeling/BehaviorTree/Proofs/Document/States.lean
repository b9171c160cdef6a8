import BehaviorTree.Proofs.Document.Drafts
import BehaviorTree.Proofs.Document.LoadedEdges
import BehaviorTree.Proofs.Document.Omissions

/-!
# The states of a loaded tree

A document names its states by its records.  One from before there were states names its root instead,
and if this is a priority selector, it becomes the only state.  Where there is neither, the tree gets a
state that stands in no record.

The records are nodes under their positions in all cases.  Which case applies is known only when the
records have been read, and the root is promoted after all edges have been attached, so a selector that
becomes a state loses the edges to it and keeps its own.
-/

namespace BehaviorTree

open BehaviorTree.Document BehaviorTree.Json Relation

theorem Node.isPriority_iff {node : Node} :
    node.isPriority = true ↔ ∃ order, node.kind = .composite (.priority order) := by
  rw [Node.isPriority]
  split <;> simp_all

namespace Document

/-! ## Places -/

namespace Kept

theorem ids_pool (kept : Kept) : kept.pool.ids = (List.range kept.length).map NodeId.mk := by
  rw [pool, Pool.ids, List.map_map, List.range_eq_range', ← List.zipIdx_map_snd, List.map_map]
  rfl

theorem nodup_ids_pool (kept : Kept) : kept.pool.ids.Nodup := by
  rw [ids_pool]
  exact List.nodup_range.map fun _ _ => NodeId.mk.inj

theorem get?_pool_eq_some_iff {kept : Kept} {index : Nat} {node : Node} :
    kept.pool.get? ⟨index⟩ = some node ↔ ∃ id, kept[index]? = some (id, node) := by
  constructor
  · intro found
    rcases List.mem_map.mp (Pool.mem_of_get? found) with ⟨⟨⟨id, _⟩, place⟩, member, same⟩
    rw [Prod.mk.injEq, NodeId.mk.injEq] at same
    rcases same with ⟨rfl, rfl⟩
    exact ⟨id, List.mem_zipIdx_iff_getElem?.mp member⟩
  · rintro ⟨id, found⟩
    apply Pool.get?_of_mem kept.nodup_ids_pool
    exact List.mem_map.mpr ⟨((id, node), index), List.mem_zipIdx_iff_getElem?.mpr found, rfl⟩

/-- The record that a document means by an identity: the first one that has it. -/
structure IsFirst (kept : Kept) (id : Int) (index : Nat) (node : Node) : Prop where
  found : kept[index]? = some (id, node)
  first : ∀ earlier < index, ∀ entry, kept[earlier]? = some entry → entry.1 ≠ id

theorem lookup_places (kept : Kept) (start : Nat) (id : Int) :
    ((kept.zipIdx start).map fun (entry, index) => (entry.1, NodeId.mk index)).lookup id =
      (kept.findIdx? (·.1 = id)).map fun index => ⟨start + index⟩ := by
  induction kept generalizing start with
  | nil => rfl
  | cons entry kept ih =>
      rw [List.zipIdx_cons, List.map_cons, List.lookup_cons, List.findIdx?_cons, ih]
      by_cases same : entry.1 = id
      · simp [same]
      · have different : (id == entry.1) = false := beq_eq_false_iff_ne.mpr (Ne.symm same)
        simp only [different, same, decide_false, Bool.false_eq_true, ↓reduceIte, Option.map_map]
        congr 1
        funext index
        simp only [Function.comp_apply, NodeId.mk.injEq]
        omega

theorem place?_eq_some_iff {kept : Kept} {id : Int} {index : Nat} :
    kept.place? id = some ⟨index⟩ ↔ ∃ node, kept.IsFirst id index node := by
  have place : kept.place? id = (kept.findIdx? (·.1 = id)).map fun index => ⟨index⟩ := by
    refine (lookup_places kept 0 id).trans ?_
    simp only [Nat.zero_add]
  rw [place, Option.map_eq_some_iff]
  simp only [NodeId.mk.injEq, exists_eq_right, List.findIdx?_eq_some_iff_getElem, decide_eq_true_eq]
  constructor
  · rintro ⟨inside, same, others⟩
    refine ⟨kept[index].2, ?_, ?_⟩
    · rw [List.getElem?_eq_getElem inside, ← same]
    · intro earlier before entry found
      rcases List.getElem?_eq_some_iff.mp found with ⟨_, rfl⟩
      exact others earlier before
  · rintro ⟨node, found, first⟩
    rcases List.getElem?_eq_some_iff.mp found with ⟨inside, same⟩
    refine ⟨inside, by rw [same], ?_⟩
    intro earlier before
    exact first earlier before _ (List.getElem?_eq_getElem (before.trans inside))

/-- The root of a document from before there were states: the record that it means by the identity of
the root, or by zero, if this is a priority selector. -/
structure IsLegacyRoot (kept : Kept) (rootId : Option Int) (index : Nat) (selector : Node)
    (order : PriorityType) : Prop extends kept.IsFirst (rootId.getD 0) index selector where
  priority : selector.kind = .composite (.priority order)

theorem legacyRoot?_eq_some_iff {kept : Kept} {rootId : Option Int} {index : Nat} :
    kept.legacyRoot? rootId = some ⟨index⟩ ↔
      ∃ selector order, kept.IsLegacyRoot rootId index selector order := by
  rw [legacyRoot?, Option.filter_eq_some_iff, place?_eq_some_iff]
  constructor
  · rintro ⟨⟨selector, isFirst⟩, priority⟩
    rw [get?_pool_eq_some_iff.mpr ⟨_, isFirst.found⟩, Option.any_some] at priority
    rcases Node.isPriority_iff.mp priority with ⟨order, kind⟩
    exact ⟨selector, order, isFirst, kind⟩
  · rintro ⟨selector, order, isFirst, kind⟩
    refine ⟨⟨selector, isFirst⟩, ?_⟩
    rw [get?_pool_eq_some_iff.mpr ⟨_, isFirst.found⟩, Option.any_some]
    exact Node.isPriority_iff.mpr ⟨order, kind⟩

end Kept

/-! ## Assembling -/

namespace Assembly

/-- The step tells nothing about the document as a whole. -/
abbrev ReportsNoMigration (step : Assembly → Assembly) : Prop :=
  Reports (·.isMigration = false) step

theorem not_isMigration_of_concernsValue (warning : LoadWarning)
    (concerns : warning.concernsValue = true) : warning.isMigration = false := by
  cases warning <;> first | rfl | cases concerns

theorem reportsNoMigration_addBehavior (element : Value × Nat) :
    ReportsNoMigration (addBehavior · element) := by
  intro assembly
  simp only [addBehavior]
  split
  · next reason _ =>
      have warned : ReportsNoMigration (·.warn (.droppedBehavior element.2 reason)) :=
        Reports.warn rfl
      exact warned assembly
  · next record _ =>
      have noted := reports_values not_isMigration_of_concernsValue (onValues_nodeOf record)
      split
      · next reason _ =>
          have warned : ReportsNoMigration (·.warn (.droppedBehavior element.2 reason)) :=
            Reports.warn rfl
          exact noted.comp warned assembly
      · next node _ => exact noted.comp (Reports.addNode record.id node) assembly

theorem reportsNoMigration_addHierarchy (element : Value × Nat) :
    ReportsNoMigration (addHierarchy · element) := by
  intro assembly
  simp only [addHierarchy]
  split
  · next reason _ =>
      have warned : ReportsNoMigration (·.warn (.droppedHierarchy element.2 reason)) :=
        Reports.warn rfl
      exact warned assembly
  · next entry _ =>
      exact reports_addEntry not_isMigration_of_concernsValue (fun _ => rfl) (fun _ _ _ => rfl)
        entry assembly

/-- An assembly that knows its states in the order of their nodes, and has the default state of the
draft. -/
structure Listing (assembly : Assembly) (draft : TreeDraft) : Prop where
  states : assembly.states =
    (assembly.builder.tree.pool.filter fun entry => entry.2.isState).map Prod.fst
  defaultState : assembly.builder.tree.defaultState = draft.defaultState

theorem Listing.addBehavior {assembly : Assembly} {draft : TreeDraft}
    (listing : assembly.Listing draft) (element : Value × Nat) :
    (assembly.addBehavior element).Listing draft := by
  rw [Assembly.addBehavior]
  split
  · exact ⟨listing.states, listing.defaultState⟩
  · dsimp only
    split
    · exact ⟨listing.states, listing.defaultState⟩
    · next node _ =>
        refine ⟨?_, listing.defaultState⟩
        simp only [addNode, Builder.addNode, Tree.insert, List.filter_append, List.map_append,
          listing.states]
        cases isState : node.isState <;> simp [isState]

theorem Listing.addBehaviors {assembly : Assembly} {draft : TreeDraft}
    (listing : assembly.Listing draft) (elements : List (Value × Nat)) :
    (elements.foldl Assembly.addBehavior assembly).Listing draft := by
  induction elements generalizing assembly with
  | nil => exact listing
  | cons element elements ih => exact ih (listing.addBehavior element)

end Assembly

namespace TreeDraft

variable {draft : TreeDraft}

theorem listing_recorded (draft : TreeDraft) : draft.recorded.Listing draft :=
  Assembly.Listing.addBehaviors ⟨rfl, rfl⟩ _

/-- The states of a document, in the order of their records. -/
def stateIds (draft : TreeDraft) : List NodeId :=
  (draft.kept.pool.filter fun entry => entry.2.isState).map Prod.fst

theorem states_recorded (draft : TreeDraft) : draft.recorded.states = draft.stateIds := by
  rw [draft.listing_recorded.states, draft.pool_recorded, stateIds]

theorem reported_assembled (draft : TreeDraft) :
    ∀ warning ∈ draft.assembled.warnings, warning.isMigration = false := by
  have behaviors := Assembly.Reports.foldl Assembly.reportsNoMigration_addBehavior
    draft.behaviors.zipIdx
  have hierarchy := Assembly.Reports.foldl Assembly.reportsNoMigration_addHierarchy
    draft.hierarchy.zipIdx
  rcases (behaviors.comp hierarchy).warnings_eq draft.start with ⟨more, others, warnings⟩
  change draft.assembled.warnings = more at warnings
  rwa [warnings]

end TreeDraft

/-! ## Recovering -/

/-- Where the states of a loaded tree come from. -/
inductive StateSource where
  | records
  | root (index : Nat) (selector : Node) (order : PriorityType)
  | none

/-- Records of states come first, then a root that can be promoted. -/
inductive StateSource.Of (kept : Kept) (rootId : Option Int) : StateSource → Prop
  | records (stateful : ∃ entry ∈ kept, entry.2.isState = true) : Of kept rootId .records
  | root {index : Nat} {selector : Node} {order : PriorityType}
      (stateless : ∀ entry ∈ kept, entry.2.isState = false)
      (isRoot : kept.IsLegacyRoot rootId index selector order) :
      Of kept rootId (.root index selector order)
  | none (stateless : ∀ entry ∈ kept, entry.2.isState = false)
      (rootless : ∀ index selector order, ¬kept.IsLegacyRoot rootId index selector order) :
      Of kept rootId .none

namespace StateSource

variable {kept : Kept} {rootId : Option Int} {source other : StateSource}

theorem not_stateful_and_stateless (stateful : ∃ entry ∈ kept, entry.2.isState = true) :
    ¬∀ entry ∈ kept, entry.2.isState = false := by
  rcases stateful with ⟨entry, member, isState⟩
  intro stateless
  cases isState.symm.trans (stateless entry member)

theorem Of.unique (isSource : source.Of kept rootId) (again : other.Of kept rootId) :
    other = source := by
  cases isSource with
  | records stateful =>
      cases again with
      | records _ => rfl
      | root stateless _ => exact absurd stateless (not_stateful_and_stateless stateful)
      | none stateless _ => exact absurd stateless (not_stateful_and_stateless stateful)
  | root stateless isRoot =>
      cases again with
      | records stateful => exact absurd stateless (not_stateful_and_stateless stateful)
      | root _ otherRoot =>
          have place := Kept.place?_eq_some_iff.mpr ⟨_, isRoot.toIsFirst⟩
          rw [Kept.place?_eq_some_iff.mpr ⟨_, otherRoot.toIsFirst⟩, Option.some.injEq,
            NodeId.mk.injEq] at place
          subst place
          have selector := isRoot.found
          rw [otherRoot.found, Option.some.injEq, Prod.mk.injEq] at selector
          rcases selector with ⟨_, rfl⟩
          have order := isRoot.priority
          rw [otherRoot.priority] at order
          cases order
          rfl
      | none _ rootless => exact absurd isRoot (rootless _ _ _)
  | none stateless rootless =>
      cases again with
      | records stateful => exact absurd stateless (not_stateful_and_stateless stateful)
      | root _ isRoot => exact absurd isRoot (rootless _ _ _)
      | none _ _ => rfl

theorem exists_of (kept : Kept) (rootId : Option Int) : ∃ source, Of kept rootId source := by
  by_cases stateful : ∃ entry ∈ kept, entry.2.isState = true
  · exact ⟨_, .records stateful⟩
  have stateless : ∀ entry ∈ kept, entry.2.isState = false := by simpa using stateful
  by_cases rooted : ∃ index selector order, kept.IsLegacyRoot rootId index selector order
  · rcases rooted with ⟨index, selector, order, isRoot⟩
    exact ⟨_, .root stateless isRoot⟩
  · exact ⟨_, .none stateless fun index selector order isRoot =>
      rooted ⟨index, selector, order, isRoot⟩⟩

end StateSource

namespace TreeDraft

variable {draft : TreeDraft} {accepted : List Container} {refused : List (Container × EditError)}

theorem promotedRoot?_eq_some_iff {index : Nat} :
    draft.promotedRoot? = some ⟨index⟩ ↔
      ∃ selector order, (StateSource.root index selector order).Of draft.kept draft.rootId := by
  rw [promotedRoot?]
  split
  · next stateful =>
      simp only [reduceCtorEq, false_iff, not_exists]
      intro selector order isSource
      cases isSource with
      | root stateless _ =>
          exact StateSource.not_stateful_and_stateless (List.any_eq_true.mp stateful) stateless
  · next stateless =>
      rw [Kept.legacyRoot?_eq_some_iff]
      simp only [List.any_eq_true, not_exists, not_and, Bool.not_eq_true] at stateless
      constructor
      · rintro ⟨selector, order, isRoot⟩
        exact ⟨selector, order, .root stateless isRoot⟩
      · rintro ⟨selector, order, isSource⟩
        cases isSource with
        | root _ isRoot => exact ⟨selector, order, isRoot⟩

theorem stateIds_eq_nil_iff :
    draft.stateIds = [] ↔ ∀ entry ∈ draft.kept, entry.2.isState = false := by
  rw [stateIds, List.map_eq_nil_iff, List.filter_eq_nil_iff, ← List.any_eq_false, Kept.any_pool,
    List.any_eq_false]
  simp

theorem defaultState_carrying (draft : TreeDraft) (accepted : List Container) :
    (draft.carrying accepted).defaultState = draft.defaultState :=
  draft.listing_recorded.defaultState

variable (selecting : draft.assembled.Selecting draft accepted refused)
include selecting

theorem states_assembled : draft.assembled.states = draft.stateIds := by
  rw [selecting.states, draft.states_recorded]

/-- The node of a record in the assembly. -/
theorem get?_assembled {index : Nat} {id : Int} {node : Node}
    (found : draft.kept[index]? = some (id, node)) :
    draft.assembled.builder.tree.get? ⟨index⟩ =
      some (node.withEdges (draft.kept.edgesFrom accepted ⟨index⟩)) := by
  rw [selecting.tree, get?_carrying, Kept.get?_pool_eq_some_iff.mpr ⟨id, found⟩]
  rfl

theorem recovered_of_records (stateful : ∃ entry ∈ draft.kept, entry.2.isState = true) :
    draft.recovered = draft.assembled := by
  have nonempty : draft.assembled.states ≠ [] := by
    rw [states_assembled selecting]
    exact mt stateIds_eq_nil_iff.mp (StateSource.not_stateful_and_stateless stateful)
  rw [recovered, Assembly.recovered, if_neg (mt List.isEmpty_iff.mp nonempty)]

theorem recovered_of_stateless (stateless : ∀ entry ∈ draft.kept, entry.2.isState = false) :
    draft.recovered = draft.assembled.recoverState draft.rootId := by
  have empty : draft.assembled.states = [] := by
    rw [states_assembled selecting, stateIds_eq_nil_iff.mpr stateless]
  rw [recovered, Assembly.recovered, if_pos (List.isEmpty_iff.mpr empty)]

theorem recovered_of_root {index : Nat} {selector : Node} {order : PriorityType}
    (stateless : ∀ entry ∈ draft.kept, entry.2.isState = false)
    (isRoot : draft.kept.IsLegacyRoot draft.rootId index selector order) :
    draft.recovered = { draft.assembled with
      builder := ⟨{ promoted (draft.carrying accepted) ⟨index⟩ order with
        defaultState := selector.name }⟩
      states := [⟨index⟩]
      warnings := draft.assembled.warnings ++ [.legacyMigration selector.name] } := by
  have found := get?_assembled selecting isRoot.found
  have kind : (selector.withEdges (draft.kept.edgesFrom accepted ⟨index⟩)).kind =
      .composite (.priority order) := isRoot.priority
  have done : draft.assembled.builder.promoteToState? ⟨index⟩ =
      some ⟨promoted (draft.carrying accepted) ⟨index⟩ order⟩ := by
    rw [Builder.promoteToState?, Builder.get?, found, Option.map_some, kind, ← selecting.tree]
    rfl
  have named : (((promoted (draft.carrying accepted) ⟨index⟩ order).get? ⟨index⟩).map
      Node.name).getD "" = selector.name := by
    rw [get?_promoted, ← selecting.tree, found]
    rfl
  rw [recovered_of_stateless selecting stateless, Assembly.recoverState, selecting.node?_eq,
    Kept.place?_eq_some_iff.mpr ⟨_, isRoot.toIsFirst⟩]
  simp only [Option.bind_eq_bind, Option.bind_some, done, Option.pure_def, Builder.get?, named]
  rfl

theorem recovered_of_none (stateless : ∀ entry ∈ draft.kept, entry.2.isState = false)
    (rootless : ∀ index selector order,
      ¬draft.kept.IsLegacyRoot draft.rootId index selector order) :
    draft.recovered = draft.assembled.warn (.synthesizedDefaultState defaultStateName) := by
  rw [recovered_of_stateless selecting stateless, Assembly.recoverState, selecting.node?_eq]
  rcases named : draft.kept.place? (draft.rootId.getD 0) with _ | ⟨⟨index⟩⟩
  · rfl
  rcases done : draft.assembled.builder.promoteToState? ⟨index⟩ with _ | builder
  · simp only [Option.bind_eq_bind, Option.bind_some, done, Option.bind_none]
  · -- Only a priority selector can be promoted, and the root is not one.
    rcases Kept.place?_eq_some_iff.mp named with ⟨node, isFirst⟩
    rcases promoteToState?_eq_some done with ⟨selector, order, found, kind, _⟩
    rw [get?_assembled selecting isFirst.found, Option.some.injEq] at found
    subst found
    exact absurd ⟨isFirst, kind⟩ (rootless index node order)

end TreeDraft

/-! ## Loaded trees -/

namespace Loaded

/-- The states of the tree are those of its records. -/
structure HasRecordedStates (loaded : Loaded) (draft : TreeDraft) (accepted : List Container) :
    Prop where
  ids : loaded.tree.pool.ids = (List.range draft.kept.length).map NodeId.mk
  nodes : ∀ index id node, draft.kept[index]? = some (id, node) →
    loaded.tree.get? ⟨index⟩ = some (node.withEdges (draft.kept.edgesFrom accepted ⟨index⟩))
  states : loaded.tree.states = draft.stateIds
  defaultState : loaded.tree.defaultState = draft.defaultState
  reported : ∀ warning ∈ loaded.warnings, warning.isMigration = false

/-- The only state of the tree is a promoted selector, and no edge leads to it. -/
structure HasPromotedState (loaded : Loaded) (draft : TreeDraft) (accepted : List Container)
    (root : Nat) (selector : Node) (order : PriorityType) : Prop where
  ids : loaded.tree.pool.ids = (List.range draft.kept.length).map NodeId.mk
  state : loaded.tree.get? ⟨root⟩ = some { selector with
    kind := .composite (.state order)
    edges := draft.kept.edgesFrom accepted ⟨root⟩ }
  nodes : ∀ index id node, index ≠ root → draft.kept[index]? = some (id, node) →
    loaded.tree.get? ⟨index⟩ =
      some (node.withEdges ((draft.kept.edgesFrom accepted ⟨index⟩).filter (·.child ≠ ⟨root⟩)))
  no_parent : ∀ parent, ¬loaded.tree.IsChild parent ⟨root⟩
  states : loaded.tree.states = [⟨root⟩]
  defaultState : loaded.tree.defaultState = selector.name
  reported : ∃ earlier, loaded.warnings = earlier ++ [.legacyMigration selector.name] ∧
    ∀ warning ∈ earlier, warning.isMigration = false

/-- The only state of the tree comes after all records and reaches none of them. -/
structure HasFreshState (loaded : Loaded) (draft : TreeDraft) (accepted : List Container) :
    Prop where
  ids : loaded.tree.pool.ids = (List.range (draft.kept.length + 1)).map NodeId.mk
  state : loaded.tree.get? ⟨draft.kept.length⟩ = some (Node.state "Default")
  nodes : ∀ index id node, draft.kept[index]? = some (id, node) →
    loaded.tree.get? ⟨index⟩ = some (node.withEdges (draft.kept.edgesFrom accepted ⟨index⟩))
  extras : loaded.tree.extras = (List.range draft.kept.length).map NodeId.mk
  states : loaded.tree.states = [⟨draft.kept.length⟩]
  defaultState : loaded.tree.defaultState = "Default"
  reported : ∃ earlier, loaded.warnings = earlier ++ [.synthesizedDefaultState "Default"] ∧
    ∀ warning ∈ earlier, warning.isMigration = false

/-- What a load makes of a draft, depending on where the states come from. -/
def HasStates (loaded : Loaded) (draft : TreeDraft) (accepted : List Container) :
    StateSource → Prop
  | .records => loaded.HasRecordedStates draft accepted
  | .root index selector order => loaded.HasPromotedState draft accepted index selector order
  | .none => loaded.HasFreshState draft accepted

end Loaded

theorem ids_withEdges (pool : Pool) (edgesOf : NodeId → List Edge) :
    (pool.withEdges edgesOf).ids = pool.ids := by
  rw [Pool.withEdges, Pool.ids, Pool.ids, List.map_map]
  rfl

/-- A single state without children reaches nothing else. -/
theorem mem_hierarchy_iff_of_childless {tree : Tree} {state id : NodeId} {node : Node}
    (states : tree.states = [state]) (found : tree.get? state = some node)
    (childless : node.edges = []) : id ∈ tree.hierarchy ↔ id = state := by
  rw [Tree.mem_hierarchy_iff, Tree.IsReached, states]
  simp only [List.mem_singleton, exists_eq_left]
  constructor
  · rintro ⟨path, _⟩
    rcases path.cases_head with same | ⟨next, step, _⟩
    · exact same.symm
    · have child := (Tree.isChild_iff found).mp step
      rw [Node.children, childless] at child
      cases child
  · rintro rfl
    exact ⟨.refl, node, found⟩

namespace TreeDraft

variable {draft : TreeDraft} {accepted : List Container} {refused : List (Container × EditError)}

theorem ids_carrying (draft : TreeDraft) (accepted : List Container) :
    (draft.carrying accepted).pool.ids = (List.range draft.kept.length).map NodeId.mk :=
  (ids_withEdges _ _).trans draft.kept.ids_pool

/-- What is accepted closes no cycle, so no edge leads from a node to itself. -/
theorem filter_edgesFrom_self (selects : Selects draft.kept [] draft.resolved accepted refused)
    (id : NodeId) :
    (draft.kept.edgesFrom accepted id).filter (·.child ≠ id) = draft.kept.edgesFrom accepted id := by
  rw [List.filter_eq_self]
  intro edge member
  rcases List.mem_map.mp member with ⟨container, containerMem, rfl⟩
  rw [List.mem_filter, decide_eq_true_eq] at containerMem
  rcases containerMem with ⟨containerMem, rfl⟩
  rw [decide_eq_true_eq]
  intro same
  have loop : Leads (accepted.map Container.link) container.parent container.parent :=
    List.mem_map.mpr ⟨container, containerMem, Prod.ext rfl same⟩
  exact selects.isAcyclic isAcyclic_nil container.parent (.single loop)

variable (selecting : draft.assembled.Selecting draft accepted refused)
include selecting

theorem hasRecordedStates (stateful : ∃ entry ∈ draft.kept, entry.2.isState = true) :
    draft.loaded.HasRecordedStates draft accepted := by
  have tree : draft.loaded.tree =
      { draft.carrying accepted with states := draft.stateIds } := by
    rw [loaded_eq, recovered_of_records selecting stateful]
    refine (Assembly.Sound.assembled draft).finish_eq.trans ?_
    rw [states_assembled selecting, selecting.tree]
    exact if_neg (mt stateIds_eq_nil_iff.mp (StateSource.not_stateful_and_stateless stateful))
  exact {
    ids := by
      rw [tree]
      exact draft.ids_carrying accepted
    nodes := by
      intro index id node found
      rw [tree, ← get?_assembled selecting found, selecting.tree]
      rfl
    states := by rw [tree]
    defaultState := by
      rw [tree]
      exact draft.defaultState_carrying accepted
    reported := by
      rw [loaded_eq, recovered_of_records selecting stateful]
      exact draft.reported_assembled }

theorem hasPromotedState (selects : Selects draft.kept [] draft.resolved accepted refused)
    {root : Nat} {selector : Node} {order : PriorityType}
    (stateless : ∀ entry ∈ draft.kept, entry.2.isState = false)
    (isRoot : draft.kept.IsLegacyRoot draft.rootId root selector order) :
    draft.loaded.HasPromotedState draft accepted root selector order := by
  have recovered := recovered_of_root selecting stateless isRoot
  have tree : draft.loaded.tree = { promoted (draft.carrying accepted) ⟨root⟩ order with
      states := [⟨root⟩]
      defaultState := selector.name } := by
    refine draft.sound_recovered.finish_eq.trans ?_
    rw [recovered]
    rfl
  have nodes : ∀ index id node, draft.kept[index]? = some (id, node) →
      draft.loaded.tree.get? ⟨index⟩ = some { node with
        edges := (draft.kept.edgesFrom accepted ⟨index⟩).filter (·.child ≠ ⟨root⟩)
        kind := if index = root then .composite (.state order) else node.kind } := by
    intro index id node found
    rw [tree]
    change (promoted (draft.carrying accepted) ⟨root⟩ order).get? ⟨index⟩ = _
    rw [get?_promoted, ← selecting.tree, get?_assembled selecting found, Option.map_some]
    simp only [NodeId.mk.injEq, Node.withEdges]
  exact {
    ids := by
      rw [tree]
      change (promoted (draft.carrying accepted) ⟨root⟩ order).pool.ids = _
      simp only [promoted, Tree.modify, Pool.ids_mapNodes, Pool.ids_modify]
      exact draft.ids_carrying accepted
    state := by
      rw [nodes root _ selector isRoot.found, filter_edgesFrom_self selects, if_pos rfl]
    nodes := by
      intro index id node other found
      rw [nodes index id node found, if_neg other]
      rfl
    no_parent := by
      intro parent step
      rw [tree] at step
      exact (isChild_promoted step).2 rfl
    states := by rw [tree]
    defaultState := by rw [tree]
    reported := by
      refine ⟨draft.assembled.warnings, ?_, draft.reported_assembled⟩
      rw [loaded_eq, recovered] }

theorem hasFreshState (stateless : ∀ entry ∈ draft.kept, entry.2.isState = false)
    (rootless : ∀ index selector order,
      ¬draft.kept.IsLegacyRoot draft.rootId index selector order) :
    draft.loaded.HasFreshState draft accepted := by
  have recovered := recovered_of_none selecting stateless rootless
  have next : (draft.carrying accepted).nextId = ⟨draft.kept.length⟩ :=
    congrArg NodeId.mk draft.ledger_recorded.created
  have empty : draft.assembled.states = [] := by
    rw [states_assembled selecting, stateIds_eq_nil_iff.mpr stateless]
  have tree : draft.loaded.tree = { (draft.carrying accepted).insert (Node.state "Default") with
      states := [⟨draft.kept.length⟩]
      defaultState := "Default" } := by
    -- The recovery only reports the state; the builder adds it when it finishes without one.
    refine draft.sound_recovered.finish_eq.trans ?_
    rw [recovered, ← next, ← selecting.tree]
    exact if_pos empty
  have get? : ∀ id, draft.loaded.tree.get? id = ((draft.carrying accepted).get? id).or
      (if id = ⟨draft.kept.length⟩ then some (Node.state "Default") else none) := by
    intro id
    rw [tree, ← next]
    exact Tree.get?_insert ..
  have ids : draft.loaded.tree.pool.ids =
      (List.range (draft.kept.length + 1)).map NodeId.mk := by
    rw [tree, List.range_succ, List.map_append, ← draft.ids_carrying accepted, List.map_singleton,
      ← next]
    exact List.map_append ..
  have state : draft.loaded.tree.get? ⟨draft.kept.length⟩ = some (Node.state "Default") := by
    have missing : (draft.carrying accepted).get? ⟨draft.kept.length⟩ = none := by
      apply Pool.get?_eq_none_iff.mpr
      rw [ids_carrying]
      simp
    rw [get?, missing, Option.none_or, if_pos rfl]
  have states : draft.loaded.tree.states = [⟨draft.kept.length⟩] := by rw [tree]
  exact {
    ids
    state
    nodes := by
      intro index id node found
      rw [get?, ← selecting.tree, get?_assembled selecting found, Option.some_or]
    extras := by
      -- Nothing is below the fresh state, so every record is left over.
      have reached : ∀ id, id ∈ draft.loaded.tree.hierarchy ↔ id = ⟨draft.kept.length⟩ :=
        fun _ => mem_hierarchy_iff_of_childless states state rfl
      have records : ((List.range draft.kept.length).map NodeId.mk).filter
          (· ∉ draft.loaded.tree.hierarchy) = (List.range draft.kept.length).map NodeId.mk := by
        rw [List.filter_eq_self]
        intro id member
        rcases List.mem_map.mp member with ⟨index, inside, rfl⟩
        rw [decide_eq_true_eq, reached, NodeId.mk.injEq]
        exact Nat.ne_of_lt (List.mem_range.mp inside)
      rw [Tree.extras, ids, List.range_succ, List.map_append, List.filter_append, records]
      simp [reached]
    states
    defaultState := by rw [tree]
    reported := by
      refine ⟨draft.assembled.warnings, ?_, draft.reported_assembled⟩
      rw [loaded_eq, recovered]
      rfl }

end TreeDraft

end Document

namespace Tree

/-- A load recovers the states of a document in one of three ways, and which one is decided by the
records and the identity of the root alone. -/
theorem load_recovers_states {text : String} {draft : TreeDraft}
    (decoded : TreeDraft.shape.read text = .ok draft) :
    (∀ members, tokens text = (Value.object members).tokens → draft.IsOf members) ∧
      ∃ loaded accepted refused source, load text = .ok loaded ∧
        Selects draft.kept [] draft.resolved accepted refused ∧
        source.Of draft.kept draft.rootId ∧
        (∀ other : StateSource, other.Of draft.kept draft.rootId → other = source) ∧
        loaded.HasStates draft accepted source := by
  refine ⟨fun _ written => TreeDraft.isOf_of_read written decoded, ?_⟩
  rcases draft.selecting_assembled with ⟨accepted, refused, selects, selecting⟩
  rcases StateSource.exists_of draft.kept draft.rootId with ⟨source, isSource⟩
  refine ⟨draft.loaded, accepted, refused, source, load_of_read decoded, selects, isSource,
    fun _ => isSource.unique, ?_⟩
  cases isSource with
  | records stateful => exact TreeDraft.hasRecordedStates selecting stateful
  | root stateless isRoot => exact TreeDraft.hasPromotedState selecting selects stateless isRoot
  | none stateless rootless => exact TreeDraft.hasFreshState selecting stateless rootless

/-- A document without states whose root shares its identity with a later record, follows a record
that is dropped, and is the child of another node. -/
def legacyDocument : Value :=
  .object [
    ("RootId", .ofInt 5),
    ("DefaultState", .text "Patrol"),
    ("Behaviors", .list [
      .object [("BehaviorType", .text "Mystery"), ("Id", .ofInt 5)],
      .object [("BehaviorType", .text "Composite"), ("CompositeType", .text "Priority"),
        ("Id", .ofInt 5), ("Name", .text "Main")],
      .object [("BehaviorType", .text "Composite"), ("CompositeType", .text "Random"),
        ("Id", .ofInt 5)],
      .object [("BehaviorType", .text "Composite"), ("CompositeType", .text "Sequence"),
        ("Id", .ofInt 4)],
      .object [("BehaviorType", .text "Action"), ("Id", .ofInt 3), ("Name", .text "Go")]]),
    ("Hierarchy", .list [
      .object [("Id", .ofInt 4), ("Children", .list [
        .object [("ChildId", .ofInt 5)], .object [("ChildId", .ofInt 3)]])],
      .object [("Id", .ofInt 5), ("Children", .list [.object [("ChildId", .ofInt 3)]])]])]

theorem load_recovers_states_legacy :
    ∃ draft loaded accepted refused selector order,
      TreeDraft.shape.read legacyDocument.render = .ok draft ∧
      load legacyDocument.render = .ok loaded ∧
      Selects draft.kept [] draft.resolved accepted refused ∧
      loaded.HasPromotedState draft accepted 0 selector order ∧
      draft.defaultState = "Patrol" ∧ loaded.tree.defaultState = "Main" ∧
      loaded.tree.pool.links = [(⟨0⟩, ⟨3⟩), (⟨2⟩, ⟨3⟩)] ∧
      loaded.warnings.filter LoadWarning.isMigration = [.legacyMigration "Main"] := by
  have computed : (TreeDraft.shape.read legacyDocument.render).toOption.map (fun draft =>
      (draft.promotedRoot?, draft.loaded.tree.defaultState, draft.loaded.tree.pool.links,
        draft.loaded.warnings.filter LoadWarning.isMigration)) =
      some (some ⟨0⟩, "Main", [(⟨0⟩, ⟨3⟩), (⟨2⟩, ⟨3⟩)], [.legacyMigration "Main"]) := by
    rw [Shape.read, tokens_render]
    decide +kernel
  rcases exists_of_read computed with ⟨draft, decoded, summary⟩
  rw [Prod.mk.injEq, Prod.mk.injEq, Prod.mk.injEq] at summary
  rcases TreeDraft.promotedRoot?_eq_some_iff.mp summary.1 with ⟨selector, order, isSource⟩
  rcases load_recovers_states decoded with
    ⟨contents, loaded, accepted, refused, source, done, selects, _, unique, recovered⟩
  have named : draft.defaultState = "Patrol" :=
    (Except.ok.inj (contents _ (tokens_render legacyDocument)).defaultState).symm
  obtain rfl : draft.loaded = loaded := Except.ok.inj ((load_of_read decoded).symm.trans done)
  obtain rfl := unique _ isSource
  exact ⟨draft, _, accepted, refused, selector, order, decoded, done, selects, recovered,
    named, summary.2⟩

end Tree

end BehaviorTree
