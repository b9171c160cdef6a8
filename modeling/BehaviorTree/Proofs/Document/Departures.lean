import BehaviorTree.Proofs.Document.EditedTrees

/-!
# Nodes that leave

Two edits take a node out of the pool.  A node that no state reaches is deleted together with the
edges that lead to it, and these are edges of other nodes that no state reaches.  A state is removed
as long as another one is left, and no edge is touched, since none leads to it.
-/

namespace BehaviorTree

open Relation

variable {tree after origin : Tree} {id other : NodeId} {node : Node}

namespace Tree

/-! ## Deleted nodes -/

/-- The tree without one node and without the edges that led to it.  The states, the default state and
whatever else is no matter of the pool are as they were. -/
structure LosesNode (tree : Tree) (id : NodeId) (after : Tree) : Prop where
  rest : after = { tree with pool := after.pool }
  ids : after.pool.ids = tree.pool.ids.filter (· ≠ id)
  nodes : ∀ other ≠ id, after.get? other = (tree.get? other).map fun node =>
    { node with edges := node.edges.filter (·.child ≠ id) }
  unlinked : ∀ parent, ¬after.IsChild parent id
  hierarchy : after.hierarchy = tree.hierarchy
  extras : after.extras = tree.extras.filter (· ≠ id)

theorem not_isChild_withoutNode (tree : Tree) (id parent : NodeId) :
    ¬(tree.withoutNode id).IsChild parent id := by
  rintro ⟨newNode, found, member⟩
  rcases get?_withoutNode_eq_some found with ⟨_, node, _, rfl⟩
  rcases List.mem_map.mp member with ⟨edge, kept, leads⟩
  have elsewhere := List.of_mem_filter kept
  simp [leads] at elsewhere

theorem hierarchy_withoutNode (detached : ¬tree.IsReached id) :
    (tree.withoutNode id).hierarchy = tree.hierarchy := by
  simpa using (mirrors_withoutNode detached).hierarchy

theorem losesNode_withoutNode (detached : ¬tree.IsReached id) :
    tree.LosesNode id (tree.withoutNode id) where
  rest := rfl
  ids := ids_withoutNode tree id
  nodes := by
    intro other different
    rw [get?_withoutNode, if_neg different]
    rfl
  unlinked := not_isChild_withoutNode tree id
  hierarchy := hierarchy_withoutNode detached
  extras := by
    simp only [extras, hierarchy_withoutNode detached, ids_withoutNode]
    exact List.filter_comm _ _ _

theorem Coherent.child_withoutNode (coherent : tree.Coherent) {child : NodeId}
    (step : tree.IsChild id child) : child ∈ (tree.withoutNode id).pool.ids := by
  have different : child ≠ id := by
    rintro rfl
    exact coherent.acyclic child (.single step)
  exact mem_ids_withoutNode.mpr ⟨coherent.child_mem_ids step, different⟩

/-! ## Removed states -/

/-- The tree without one state.  The other nodes stay as they are, in the hierarchy or detached,
depending on whether a path leads from the remaining states to them; the default state stays unless
its name was that of the removed state. -/
structure LosesState (tree : Tree) (id : NodeId) (node : Node) (after : Tree) : Prop where
  rest : after = { tree with
    pool := after.pool
    states := after.states
    defaultState := after.defaultState }
  ids : after.pool.ids = tree.pool.ids.filter (· ≠ id)
  nodes : ∀ other ≠ id, after.get? other = tree.get? other
  states : after.states = tree.states.filter (· ≠ id)
  mem_hierarchy : ∀ other ∈ tree.pool.ids, other ≠ id →
    (other ∈ after.hierarchy ↔ after.IsReached other)
  mem_extras : ∀ other ∈ tree.pool.ids, other ≠ id →
    (other ∈ after.extras ↔ ¬after.IsReached other)
  default_found : tree.hasState tree.defaultState = true →
    after.hasState after.defaultState = true
  default_kept : node.name ≠ tree.defaultState → after.defaultState = tree.defaultState
  default_moved : node.name = tree.defaultState → ∃ first firstNode,
    after.states.head? = some first ∧ after.get? first = some firstNode ∧
      after.defaultState = firstNode.name

theorem Orderly.losesState (orderly : tree.Orderly) (state : id ∈ tree.states)
    (others : tree.states.length ≠ 1) (found : tree.get? id = some node) :
    tree.LosesState id node (tree.withoutState id node.name) := by
  have rest := orderly.withoutState node.name state others
  have stays : ∀ other ∈ tree.pool.ids, other ≠ id →
      other ∈ (tree.withoutState id node.name).pool.ids :=
    fun _ pooled different => mem_ids_withoutState.mpr ⟨pooled, different⟩
  have listed : ∀ other ∈ tree.pool.ids, other ≠ id →
      (other ∈ (tree.withoutState id node.name).hierarchy ↔
        (tree.withoutState id node.name).IsReached other) := by
    intro other pooled different
    rw [mem_hierarchy_iff_isInHierarchy (stays other pooled different), isInHierarchy_iff]
  exact {
    rest := rfl
    ids := ids_withoutState tree id node.name
    nodes := by
      intro other different
      rw [get?_withoutState, if_neg different]
    states := by
      refine (orderly.distinct.erase_eq_filter id).trans (List.filter_congr fun other _ => ?_)
      rw [Bool.eq_iff_iff]
      simp
    mem_hierarchy := listed
    mem_extras := by
      intro other pooled different
      rw [mem_extras_iff, listed other pooled different]
      exact and_iff_right (stays other pooled different)
    default_found :=
      default_found_withoutState found orderly.distinct rest.nonempty rest.exists_get?
    default_kept := defaultState_withoutState_of_ne
    default_moved := default_moved_withoutState rest.nonempty rest.exists_get? }

theorem Rooted.not_isChild_state (rooted : tree.Rooted) (state : id ∈ tree.states)
    (parent : NodeId) : ¬tree.IsChild parent id := by
  intro step
  rcases rooted.pooled id state with ⟨node, found⟩
  have isState := rooted.isState_of_mem state found
  have ordinary := rooted.child_ordinary step found
  exact Bool.noConfusion (isState.symm.trans ordinary)

theorem isChild_withoutState_iff (name : String) {parent child : NodeId} :
    (tree.withoutState id name).IsChild parent child ↔
      parent ≠ id ∧ tree.IsChild parent child := by
  simp only [IsChild, get?_withoutState_eq_some, and_assoc, exists_and_left]

/-- No path from another node comes through a state, so none is lost with it. -/
theorem Rooted.path_withoutState_iff (rooted : tree.Rooted) (state : id ∈ tree.states)
    (name : String) {start target : NodeId} (different : start ≠ id) :
    ReflTransGen (tree.withoutState id name).IsChild start target ↔
      ReflTransGen tree.IsChild start target := by
  constructor
  · apply ReflTransGen.mono
    exact fun parent child step => ((isChild_withoutState_iff name).mp step).2
  · intro path
    induction path with
    | refl => exact .refl
    | @tail middle last above step ih =>
        -- A path that starts elsewhere comes to the state through an edge, and there is none.
        have middleDifferent : middle ≠ id := by
          rintro rfl
          rcases above.cases_tail with same | ⟨parent, _, intoState⟩
          · exact different same.symm
          · exact rooted.not_isChild_state state parent intoState
        exact ih.tail ((isChild_withoutState_iff name).mpr ⟨middleDifferent, step⟩)

end Tree

namespace Edit

/-! ## Edits that take nodes out -/

theorem deleteNode_eq_ok_iff {answer : Answer} :
    (deleteNode id).apply tree = (.ok answer, after) ↔
      ∃ node, tree.get? id = some node ∧ ¬tree.IsReached id ∧
        answer = .node (node.detachedFrom id) ∧ after = tree.withoutNode id := by
  rw [apply_eq_ok_iff]
  constructor
  · intro accepted
    cases accepted with
    | deleteNode found detached => exact ⟨_, found, detached, rfl, rfl⟩
  · rintro ⟨node, found, detached, rfl, rfl⟩
    exact .deleteNode found detached

theorem exists_deleteNode_iff :
    (∃ answer after, (deleteNode id).apply tree = (.ok answer, after)) ↔ id ∈ tree.extras := by
  simp only [deleteNode_eq_ok_iff, Tree.mem_extras_iff, Tree.mem_hierarchy_iff, Pool.mem_ids_iff]
  constructor
  · rintro ⟨_, _, node, found, detached, _, _⟩
    exact ⟨⟨node, found⟩, fun reached => detached reached.1⟩
  · rintro ⟨⟨node, found⟩, detached⟩
    exact ⟨_, _, node, found, fun reached => detached ⟨reached, node, found⟩, rfl, rfl⟩

/-- Two states and two detached nodes share an action, and one of these two is twice a child of the
other. -/
def departureRun : List Edit :=
  [.addNode (.fresh (.action {})),
    .addNode (.fresh (.composite .sequence)),
    .addNode (.fresh (.composite .random)),
    .addState "Alert",
    .addChild ⟨0⟩ ⟨1⟩ [],
    .addChild ⟨2⟩ ⟨1⟩ [],
    .addChild ⟨3⟩ ⟨2⟩ [],
    .addChild ⟨3⟩ ⟨1⟩ [],
    .addChild ⟨3⟩ ⟨2⟩ [],
    .addChild ⟨4⟩ ⟨1⟩ []]

/-- A node can be deleted if and only if it is listed as an extra, and nothing else is lost with it
but the edges that lead to it.  Its children stay where no added node brought edges with it. -/
theorem deletes_extras_only (isOrigin : origin.IsOrigin) {edits : List Edit}
    (edited : applyAll edits origin = tree) (id : NodeId) :
    ((∃ answer after, (deleteNode id).apply tree = (.ok answer, after)) ↔ id ∈ tree.extras) ∧
      ∀ answer after, (deleteNode id).apply tree = (.ok answer, after) →
        tree.LosesNode id after ∧
        ((∀ edit ∈ edits, edit.IsBare) →
          ∀ child, tree.IsChild id child → child ∈ after.pool.ids) := by
  refine ⟨exists_deleteNode_iff, ?_⟩
  intro answer after done
  rcases deleteNode_eq_ok_iff.mp done with ⟨_, _, detached, _, rfl⟩
  refine ⟨Tree.losesNode_withoutNode detached, ?_⟩
  intro bare child step
  have rooted := rooted_applyAll edits bare isOrigin.rooted
  rw [edited] at rooted
  exact rooted.toCoherent.child_withoutNode step

theorem deletes_extras_only_departureRun :
    ∃ answer after,
      (deleteNode ⟨2⟩).apply (applyAll departureRun (Tree.new "Guard")) = (.ok answer, after) ∧
      (applyAll departureRun (Tree.new "Guard")).LosesNode ⟨2⟩ after ∧
      after.edge? ⟨3⟩ 0 = some ⟨⟨1⟩, []⟩ ∧ after.edge? ⟨3⟩ 1 = none ∧ ⟨1⟩ ∈ after.pool.ids := by
  have bare : ∀ edit ∈ departureRun, edit.IsBare := by
    simp [departureRun, IsBare, Node.fresh]
  have extra : ⟨2⟩ ∈ (applyAll departureRun (Tree.new "Guard")).extras := by
    decide +kernel
  have child : (applyAll departureRun (Tree.new "Guard")).IsChild ⟨2⟩ ⟨1⟩ :=
    ⟨{ Node.fresh (.composite .sequence) with edges := [⟨⟨1⟩, []⟩] }, by decide +kernel⟩
  have edges : ((deleteNode ⟨2⟩).apply (applyAll departureRun (Tree.new "Guard"))).2.edge? ⟨3⟩ 0 =
        some ⟨⟨1⟩, []⟩ ∧
      ((deleteNode ⟨2⟩).apply (applyAll departureRun (Tree.new "Guard"))).2.edge? ⟨3⟩ 1 = none := by
    decide +kernel
  rcases deletes_extras_only (.fresh "Guard") (rfl : applyAll departureRun _ = _) ⟨2⟩
    with ⟨exact, kept⟩
  rcases exact.mpr extra with ⟨answer, after, done⟩
  rcases kept answer after done with ⟨loses, children⟩
  rw [done] at edges
  exact ⟨answer, after, done, loses, edges.1, edges.2, children bare ⟨1⟩ child⟩

/-- As long as there are two states, any of them can be removed, and nothing else is lost with it.
Where no added node brought edges with it, the remaining states reach what they reached before, and no
edge leads out of the pool. -/
theorem removes_state_only (isOrigin : origin.IsOrigin) {edits : List Edit}
    (edited : applyAll edits origin = tree) (state : id ∈ tree.states)
    (others : 2 ≤ tree.states.length) :
    ∃ node after, (removeState id).apply tree = (.ok (.node node), after) ∧
      tree.get? id = some node ∧ tree.LosesState id node after ∧
      ((∀ edit ∈ edits, edit.IsBare) →
        (∀ start ≠ id, ∀ target,
          ReflTransGen after.IsChild start target ↔ ReflTransGen tree.IsChild start target) ∧
        ∀ parent child, after.IsChild parent child → child ∈ after.pool.ids) := by
  have orderly := orderly_applyAll edits isOrigin.rooted.orderly
  rw [edited] at orderly
  have several : tree.states.length ≠ 1 := by omega
  rcases orderly.exists_get? id state with ⟨node, found⟩
  refine ⟨node, tree.withoutState id node.name,
    apply_eq_ok_iff.mpr (.removeState found state several), found,
    orderly.losesState state several found, ?_⟩
  intro bare
  have rooted := rooted_applyAll edits bare isOrigin.rooted
  rw [edited] at rooted
  constructor
  · intro start different target
    exact rooted.path_withoutState_iff state node.name different
  · intro parent child step
    exact (rooted.withoutState node.name state several).toCoherent.child_mem_ids step

theorem removes_state_only_departureRun :
    ∃ node after,
      (removeState ⟨0⟩).apply (applyAll departureRun (Tree.new "Guard")) =
        (.ok (.node node), after) ∧
      (applyAll departureRun (Tree.new "Guard")).LosesState ⟨0⟩ node after ∧
      after.states = [⟨4⟩] ∧ after.defaultState = "Alert" ∧
      ReflTransGen after.IsChild ⟨4⟩ ⟨1⟩ := by
  have bare : ∀ edit ∈ departureRun, edit.IsBare := by
    simp [departureRun, IsBare, Node.fresh]
  have child : (applyAll departureRun (Tree.new "Guard")).IsChild ⟨4⟩ ⟨1⟩ :=
    ⟨{ Node.state "Alert" with edges := [⟨⟨1⟩, []⟩] }, by decide +kernel⟩
  have left : ((removeState ⟨0⟩).apply (applyAll departureRun (Tree.new "Guard"))).2.states =
        [⟨4⟩] ∧
      ((removeState ⟨0⟩).apply (applyAll departureRun (Tree.new "Guard"))).2.defaultState =
        "Alert" := by
    decide +kernel
  have state : ⟨0⟩ ∈ (applyAll departureRun (Tree.new "Guard")).states := by
    decide +kernel
  rcases removes_state_only (.fresh "Guard") rfl state (by decide +kernel)
    with ⟨node, after, done, _, loses, kept⟩
  rw [done] at left
  have reached := ((kept bare).1 ⟨4⟩ (by decide) ⟨1⟩).mpr (.single child)
  exact ⟨node, after, done, loses, left.1, left.2, reached⟩

end Edit

end BehaviorTree
