import BehaviorTree.Proofs.Document.Assembly
import BehaviorTree.Proofs.Tree.Links

/-!
# Links of a tree that is built

An attachment adds a link, a promotion takes away those to the promoted node, and nothing that a
builder does besides changes them.
-/

namespace BehaviorTree

open BehaviorTree.Document

/-! ## Steps of a builder -/

def Node.isPriority (node : Node) : Bool :=
  match node.kind with
  | .composite (.priority _) => true
  | _ => false

namespace Builder

variable {builder after : Builder}

/-- A child that is attached leaves everything but the edges as it is. -/
theorem links_attach {parent child : NodeId} {bindings : ParameterSet}
    (coherent : builder.tree.Coherent)
    (accepted : builder.attach parent child bindings = .ok after) :
    after.tree.pool.links.Perm (builder.tree.pool.links ++ [(parent, child)]) ∧
      after.tree.pool.bare = builder.tree.pool.bare ∧
      after.tree.created = builder.tree.created := by
  rcases Tree.attached_eq_ok_iff.mp (attached_of_attach accepted)
    with ⟨_, _, position, attachable, _, inserted⟩
  rw [inserted]
  refine ⟨?_, ?_, rfl⟩
  · exact Pool.links_insertEdge coherent.nodup_ids attachable.parent_found attachable.in_range
  · simp only [Tree.insertEdge, Tree.modify]
    apply Pool.bare_modify
    intro node
    rfl

/-- A promotion drops the edges to the promoted node. -/
theorem links_promoteToState? {root : NodeId} (done : builder.promoteToState? root = some after) :
    after.tree.pool.links = builder.tree.pool.links.filter fun link => link.2 ≠ root := by
  rcases promoteToState?_eq_some done with ⟨_, order, _, _, rfl⟩
  rw [promoted, Pool.links_detached]
  apply congrArg
  simp only [Tree.modify]
  apply Pool.links_modify
  intro node
  rfl

theorem isSome_promoteToState? (builder : Builder) (root : NodeId) :
    (builder.promoteToState? root).isSome = (builder.get? root).any Node.isPriority := by
  rw [promoteToState?]
  rcases found : builder.get? root with _ | node
  · rfl
  · rw [Option.map_some, Option.any_some, Node.isPriority]
    split <;> simp_all

/-- A promotion leaves everything about a node but its edges as it is, and changes only the kind of
the promoted one. -/
theorem get?_promoteToState? {root id : NodeId} {node : Node}
    (done : builder.promoteToState? root = some after) (found : builder.tree.get? id = some node) :
    ∃ edges kind, after.tree.get? id = some { node with edges, kind } ∧
      (id ≠ root → kind = node.kind) := by
  rcases promoteToState?_eq_some done with ⟨_, order, _, _, rfl⟩
  rw [get?_promoted, found]
  exact ⟨_, _, rfl, fun different => if_neg different⟩

theorem get?_finish {id : NodeId} {node : Node} (found : builder.tree.get? id = some node)
    (ids : List NodeId) :
    ∃ edges, (builder.finish ids).get? id = some (node.withEdges edges) := by
  rw [finish]
  dsimp only
  split
  · have inserted : (builder.tree.insert (Node.state defaultStateName)).get? id = some node := by
      rw [Tree.get?_insert, found]
      rfl
    exact Tree.get?_matchParameters inserted
  · exact Tree.get?_matchParameters found

theorem links_finish (builder : Builder) (ids : List NodeId) :
    (builder.finish ids).pool.links = builder.tree.pool.links := by
  rw [finish]
  dsimp only
  split
  · rw [Tree.links_matchParameters]
    exact Pool.links_append_bare rfl
  · rw [Tree.links_matchParameters]

end Builder

end BehaviorTree
