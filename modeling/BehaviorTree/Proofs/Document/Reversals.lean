import BehaviorTree.Proofs.Document.EditedTrees
import Mathlib.Data.List.Perm.Basic

/-!
# Edits of children taken back

A child that is attached and removed again leaves the tree as it was, and so does an edge that is moved
and moved back.  Both come down to lists: what is inserted at a position is erased from there, and what
is erased from a position is inserted there again.
-/

namespace BehaviorTree

variable {tree after origin : Tree} {id childId : NodeId} {node : Node}

/-- The first edge to a new child is the one that is inserted. -/
theorem Node.indexOf?_insertIdx {edge : Edge} {position : Nat} (new : edge.child ∉ node.children)
    (inRange : position ≤ node.edges.length) :
    (node.withEdges (node.edges.insertIdx position edge)).indexOf? edge.child = some position := by
  have longer := List.length_insertIdx_of_le_length inRange edge
  refine List.findIdx?_eq_some_iff_getElem.mpr ⟨?_, ?_, ?_⟩
  · change position < (node.edges.insertIdx position edge).length
    omega
  · simp [Node.withEdges]
  · intro earlier before leads
    simp only [Node.withEdges, List.getElem_insertIdx_of_lt before, decide_eq_true_eq] at leads
    exact new (leads ▸ List.mem_map_of_mem (List.getElem_mem _))

namespace Tree

/-! ## Edges given back -/

/-- Once a node has its edges back, the tree is as it was. -/
theorem withEdges_undone {change restore : List Edge → List Edge} (distinct : tree.pool.ids.Nodup)
    (found : tree.get? id = some node) (back : restore (change node.edges) = node.edges) :
    (tree.withEdges id change).withEdges id restore = tree := by
  have forth := inPlace_withEdges tree id change
  have inPlace := forth.trans (inPlace_withEdges (tree.withEdges id change) id restore)
  refine eq_of_get? distinct rfl inPlace.ids fun other => ?_
  by_cases same : other = id
  · subst same
    rw [get?_withEdges_self (get?_withEdges_self found change), found]
    change some (node.withEdges (restore (change node.edges))) = _
    rw [back]
    rfl
  · rw [get?_withEdges_of_ne same, get?_withEdges_of_ne same]

/-! ## Edges moved -/

/-- The tree with one edge of a node moved to another position.  The others follow each other as
before, the nodes are otherwise the same, and the states reach the same ones. -/
structure MovesEdge (tree : Tree) (id : NodeId) (origin destination : Nat) (after : Tree) : Prop where
  rest : after = { tree with pool := after.pool }
  ids : after.pool.ids = tree.pool.ids
  others : ∀ other ≠ id, after.get? other = tree.get? other
  moved : ∃ node edge edges, tree.get? id = some node ∧
    after.get? id = some (node.withEdges edges) ∧
    node.edges[origin]? = some edge ∧ edges[destination]? = some edge ∧
    edges.eraseIdx destination = node.edges.eraseIdx origin ∧ edges.Perm node.edges
  mem_hierarchy : ∀ other, other ∈ after.hierarchy ↔ other ∈ tree.hierarchy

/-- What the states reach is up to the graph alone, whatever the order of the children. -/
theorem mem_hierarchy_congr (states : after.states = tree.states)
    (ids : after.pool.ids = tree.pool.ids)
    (steps : ∀ parent child, after.IsChild parent child ↔ tree.IsChild parent child)
    (other : NodeId) : other ∈ after.hierarchy ↔ other ∈ tree.hierarchy := by
  have graph : after.IsChild = tree.IsChild := by
    funext parent child
    exact propext (steps parent child)
  have reached : after.IsReached other ↔ tree.IsReached other := by
    rw [IsReached, IsReached, states, graph]
  rw [mem_hierarchy_iff, mem_hierarchy_iff, reached]
  refine and_congr_right fun _ => ?_
  have pooled : other ∈ after.pool.ids ↔ other ∈ tree.pool.ids := by rw [ids]
  rwa [Pool.mem_ids_iff, Pool.mem_ids_iff] at pooled

theorem isChild_withEdges_of_perm (found : tree.get? id = some node)
    {change : List Edge → List Edge} (perm : (change node.edges).Perm node.edges)
    (parent child : NodeId) :
    (tree.withEdges id change).IsChild parent child ↔ tree.IsChild parent child := by
  by_cases same : parent = id
  · subst same
    rw [isChild_iff found, isChild_iff (get?_withEdges_self found change)]
    exact (perm.map Edge.child).mem_iff
  · rw [IsChild, IsChild, get?_withEdges_of_ne same]

theorem movesEdge_withEdges {edge : Edge} {origin destination : Nat}
    (found : tree.get? id = some node) (edgeFound : node.edges[origin]? = some edge)
    (inRange : destination < node.edges.length) :
    tree.MovesEdge id origin destination
      (tree.withEdges id fun edges => (edges.eraseIdx origin).insertIdx destination edge) := by
  rcases List.getElem?_eq_some_iff.mp edgeFound with ⟨inside, isEdge⟩
  have fits : destination ≤ (node.edges.eraseIdx origin).length := by
    rw [List.length_eraseIdx_of_lt inside]
    omega
  have perm : ((node.edges.eraseIdx origin).insertIdx destination edge).Perm node.edges := by
    refine (List.perm_insertIdx edge _ fits).trans ?_
    rw [← isEdge]
    exact List.getElem_cons_eraseIdx_perm inside
  have inPlace := inPlace_withEdges tree id fun edges =>
    (edges.eraseIdx origin).insertIdx destination edge
  exact {
    rest := rfl
    ids := inPlace.ids
    others := fun _ different => get?_withEdges_of_ne different _
    moved := by
      refine ⟨node, edge, _, found, get?_withEdges_self found _, edgeFound, ?_, ?_, perm⟩
      · rw [List.getElem?_insertIdx_self, if_pos fits]
      · exact List.eraseIdx_insertIdx_self edge
    mem_hierarchy :=
      mem_hierarchy_congr inPlace.states inPlace.ids (isChild_withEdges_of_perm found perm) }

end Tree

namespace Edit

/-! ## Edits taken back -/

theorem removeChild_of_insertEdge {edge : Edge} {position : Nat} (distinct : tree.pool.ids.Nodup)
    (found : tree.get? id = some node) (new : edge.child ∉ node.children)
    (inRange : position ≤ node.edges.length) :
    (removeChild id edge.child).apply (tree.insertEdge id position edge) =
      (.ok (.bindings edge.bindings), tree) := by
  have edgeFound : (node.edges.insertIdx position edge)[position]? = some edge := by
    rw [List.getElem?_insertIdx_self, if_pos inRange]
  have restored : (tree.insertEdge id position edge).withEdges id
      (fun edges => edges.eraseIdx position) = tree :=
    Tree.withEdges_undone distinct found (List.eraseIdx_insertIdx_self edge)
  have accepted : (removeChild id edge.child).Accepted (tree.insertEdge id position edge)
      (.bindings edge.bindings) _ :=
    .removeChild (Tree.get?_withEdges_self found _) (Node.indexOf?_insertIdx new inRange) edgeFound
  rw [restored] at accepted
  exact apply_eq_ok_iff.mpr accepted

/-- A child that has just been attached is removed again, with the bindings that it got. -/
theorem removeChild_of_attached {parentId : NodeId} {index : Option Nat} {bindings : ParameterSet}
    (distinct : tree.pool.ids.Nodup) (new : ¬tree.IsChild parentId childId)
    (attached : tree.attached true parentId index childId bindings = .ok after) :
    ∃ child position, tree.get? childId = some child ∧
      after.edge? parentId position = some ⟨childId, child.fit bindings⟩ ∧
      (removeChild parentId childId).apply after = (.ok (.bindings (child.fit bindings)), tree) := by
  rcases Tree.attached_eq_ok_iff.mp attached with ⟨parent, child, position, attachable, _, rfl⟩
  have parentFound := attachable.parent_found
  rw [Tree.isChild_iff parentFound] at new
  rw [Tree.fitBindings_eq_fit attachable.child_found]
  refine ⟨child, position, attachable.child_found, ?_, ?_⟩
  · rw [Tree.edge?, Tree.insertEdge, Tree.get?_modify, parentFound]
    simp [List.getElem?_insertIdx_self, attachable.in_range]
  · exact removeChild_of_insertEdge distinct parentFound new attachable.in_range

/-- An edge that has been moved is moved back. -/
theorem moveChild_of_movesEdge {origin destination : Nat} (distinct : tree.pool.ids.Nodup)
    (moves : tree.MovesEdge id origin destination after) :
    (moveChild id destination origin).apply after = (.ok .done, tree) := by
  rcases moves.moved with ⟨node, edge, edges, found, foundAfter, edgeFound, edgeAfter, others, perm⟩
  rcases List.getElem?_eq_some_iff.mp edgeFound with ⟨inside, rfl⟩
  have accepted : (moveChild id destination origin).Accepted after .done _ :=
    .moveChild foundAfter edgeAfter (perm.length_eq ▸ inside)
  have restored : (after.withEdges id fun edges =>
      (edges.eraseIdx destination).insertIdx origin node.edges[origin]) = tree := by
    refine Tree.eq_of_get? distinct ?_ ?_ fun other => ?_
    · rw [moves.rest]
      rfl
    · exact (Tree.inPlace_withEdges after id _).ids.trans moves.ids
    · by_cases same : other = id
      · subst same
        rw [Tree.get?_withEdges_self foundAfter, found]
        change some (node.withEdges ((edges.eraseIdx destination).insertIdx origin _)) = _
        rw [others, List.insertIdx_eraseIdx_getElem inside]
        rfl
      · rw [Tree.get?_withEdges_of_ne same, moves.others other same]
  rw [restored] at accepted
  exact apply_eq_ok_iff.mpr accepted

/-- A state has one child twice and another one in between; a third node has a parameter. -/
def reversalRun : List Edit :=
  [.addNode (.fresh (.action {})),
    .addNode (.fresh (.condition {})),
    .addNode (.fresh (.action {})),
    .addParameter ⟨3⟩ (.ofType "count" .int),
    .addChild ⟨0⟩ ⟨1⟩ [],
    .addChild ⟨0⟩ ⟨2⟩ [],
    .addChild ⟨0⟩ ⟨1⟩ []]

/-- Attaching a new child and moving an edge are undone by the opposite edit, which leaves the tree as
it was.  A move changes the order of the edges of one node, and only the place of one of them. -/
theorem child_edits_undone (isOrigin : origin.IsOrigin) {edits : List Edit}
    (edited : applyAll edits origin = tree) (parentId : NodeId) :
    (∀ edit childId bindings answer after,
      (edit = addChild parentId childId bindings ∨
        ∃ index, edit = insertChild parentId index childId bindings) →
      ¬tree.IsChild parentId childId → edit.apply tree = (.ok answer, after) →
        ∃ child position, tree.get? childId = some child ∧
          after.edge? parentId position = some ⟨childId, child.fit bindings⟩ ∧
          (removeChild parentId childId).apply after =
            (.ok (.bindings (child.fit bindings)), tree)) ∧
    ∀ place destination answer after,
      (moveChild parentId place destination).apply tree = (.ok answer, after) →
        tree.MovesEdge parentId place destination after ∧
        (moveChild parentId destination place).apply after = (.ok .done, tree) := by
  have distinct := (orderly_applyAll edits isOrigin.rooted.orderly).nodup_ids
  rw [edited] at distinct
  constructor
  · rintro edit childId bindings answer after (rfl | ⟨index, rfl⟩) new done
    · cases apply_eq_ok_iff.mp done with
      | addChild attached => exact removeChild_of_attached distinct new attached
    · cases apply_eq_ok_iff.mp done with
      | insertChild attached => exact removeChild_of_attached distinct new attached
  · intro place destination answer after done
    cases apply_eq_ok_iff.mp done with
    | moveChild found edgeFound inRange =>
        have moves := Tree.movesEdge_withEdges found edgeFound inRange
        exact ⟨moves, moveChild_of_movesEdge distinct moves⟩

theorem child_edits_undone_reversalRun :
    ∃ extended moved,
      (insertChild ⟨0⟩ 1 ⟨3⟩ []).apply (applyAll reversalRun (Tree.new "Guard")) =
        (.ok .done, extended) ∧
      (removeChild ⟨0⟩ ⟨3⟩).apply extended =
        (.ok (.bindings [.ofType "count" .int]), applyAll reversalRun (Tree.new "Guard")) ∧
      (moveChild ⟨0⟩ 0 2).apply (applyAll reversalRun (Tree.new "Guard")) = (.ok .done, moved) ∧
      moved.edge? ⟨0⟩ 0 = some ⟨⟨2⟩, []⟩ ∧
      (moveChild ⟨0⟩ 2 0).apply moved = (.ok .done, applyAll reversalRun (Tree.new "Guard")) := by
  have parentFound : (applyAll reversalRun (Tree.new "Guard")).get? ⟨0⟩ =
      some ((Node.state "Default").withEdges [⟨⟨1⟩, []⟩, ⟨⟨2⟩, []⟩, ⟨⟨1⟩, []⟩]) := by
    decide +kernel
  have new : ¬(applyAll reversalRun (Tree.new "Guard")).IsChild ⟨0⟩ ⟨3⟩ := by
    rw [Tree.isChild_iff parentFound]
    decide
  have fits : ((applyAll reversalRun (Tree.new "Guard")).get? ⟨3⟩).map (Node.fit · []) =
      some [.ofType "count" .int] := by
    decide +kernel
  have inserted : ((insertChild ⟨0⟩ 1 ⟨3⟩ []).apply
      (applyAll reversalRun (Tree.new "Guard"))).1 = .ok .done := by
    decide +kernel
  have moved : ((moveChild ⟨0⟩ 0 2).apply (applyAll reversalRun (Tree.new "Guard"))).1 =
        .ok .done ∧
      ((moveChild ⟨0⟩ 0 2).apply (applyAll reversalRun (Tree.new "Guard"))).2.edge? ⟨0⟩ 0 =
        some ⟨⟨2⟩, []⟩ := by
    decide +kernel
  rcases child_edits_undone (.fresh "Guard") (rfl : applyAll reversalRun _ = _) ⟨0⟩
    with ⟨attaching, moving⟩
  rcases attaching _ ⟨3⟩ [] _ _ (.inr ⟨1, rfl⟩) new (Prod.ext inserted rfl)
    with ⟨child, _, childFound, _, removed⟩
  rw [childFound, Option.map_some, Option.some.injEq] at fits
  rw [fits] at removed
  exact ⟨_, _, Prod.ext inserted rfl, removed, Prod.ext moved.1 rfl, moved.2,
    (moving 0 2 _ _ (Prod.ext moved.1 rfl)).2⟩

end Edit

end BehaviorTree
