import BehaviorTree.Proofs.Tree.Acceptance

/-!
# Invariants of trees

Three layers of invariants: of the graph of a tree, of its states, and of what only an editor
ensures.  A document may break the last one, since whatever it says about names and about the
number of children is loaded as it stands, but neither of the others.

Most edits change nodes in place.  They keep the roles of all nodes, so what is left to show for
them is which edges they add.
-/

namespace BehaviorTree

open Relation

/-- What decides where a node may stand. -/
def Node.role (node : Node) : Bool × Bool × Bool :=
  (node.isState, node.isLeaf, node.kind.isDecorator)

namespace Tree

/-- The nodes of a tree form a graph without cycles that leads nowhere else. -/
structure Coherent (tree : Tree) : Prop where
  ordered : tree.pool.ids.Pairwise (·.index < ·.index)
  bounded : ∀ id ∈ tree.pool.ids, id.index < tree.created
  closed : ∀ parent child, tree.IsChild parent child →
    ∃ node, tree.get? child = some node ∧ node.isState = false
  leaves : ∀ id node, tree.get? id = some node → node.isLeaf = true → node.edges = []
  acyclic : ∀ id, ¬TransGen tree.IsChild id id

/-- The graph of a tree hangs on its states, and there are no others. -/
structure Rooted (tree : Tree) : Prop extends tree.Coherent where
  states_nonempty : tree.states ≠ []
  states_distinct : tree.states.Nodup
  mem_states : ∀ id, id ∈ tree.states ↔ ∃ node, tree.get? id = some node ∧ node.isState = true

/-- What an editor ensures on top: states have names of their own, one of them is the default, and
no decorator has a second child. -/
structure Authored (tree : Tree) : Prop extends tree.Rooted where
  names_distinct : ∀ id ∈ tree.states, ∀ other ∈ tree.states, ∀ node otherNode,
    tree.get? id = some node → tree.get? other = some otherNode → node.name = otherNode.name →
      id = other
  default_found : ∃ id ∈ tree.states, ∃ node, tree.get? id = some node ∧
    node.name = tree.defaultState
  single : ∀ id node, tree.get? id = some node → node.kind.isDecorator = true →
    node.edges.length ≤ 1

/-- The same nodes in the same roles, whatever their other properties and their edges. -/
structure InPlace (tree after : Tree) : Prop where
  ids : after.pool.ids = tree.pool.ids
  created : after.created = tree.created
  states : after.states = tree.states
  roles : ∀ id, (after.get? id).map Node.role = (tree.get? id).map Node.role

variable {tree after : Tree}

theorem Rooted.pooled (rooted : tree.Rooted) :
    ∀ id ∈ tree.states, ∃ node, tree.get? id = some node := by
  intro id member
  rcases (rooted.mem_states id).mp member with ⟨node, found, _⟩
  exact ⟨node, found⟩

theorem Rooted.isState_of_mem (rooted : tree.Rooted) {id : NodeId} {node : Node}
    (member : id ∈ tree.states) (found : tree.get? id = some node) : node.isState = true := by
  rcases (rooted.mem_states id).mp member with ⟨other, otherFound, isState⟩
  rw [found, Option.some.injEq] at otherFound
  exact otherFound ▸ isState

theorem Coherent.nodup_ids (coherent : tree.Coherent) : tree.pool.ids.Nodup := by
  apply coherent.ordered.imp
  rintro id _ smaller rfl
  exact Nat.lt_irrefl _ smaller

theorem Coherent.get?_nextId (coherent : tree.Coherent) : tree.get? tree.nextId = none := by
  apply Pool.get?_eq_none_iff.mpr
  intro member
  exact Nat.lt_irrefl _ (coherent.bounded _ member)

theorem Coherent.child_mem_ids (coherent : tree.Coherent) {parent child : NodeId}
    (step : tree.IsChild parent child) : child ∈ tree.pool.ids := by
  rcases coherent.closed parent child step with ⟨node, found, _⟩
  exact Pool.mem_ids_of_get? found

theorem Coherent.child_ordinary (coherent : tree.Coherent) {parent child : NodeId} {node : Node}
    (step : tree.IsChild parent child) (found : tree.get? child = some node) :
    node.isState = false := by
  rcases coherent.closed parent child step with ⟨other, otherFound, ordinary⟩
  rw [found, Option.some.injEq] at otherFound
  exact otherFound ▸ ordinary

/-- Two nodes may be parent and child, as far as their roles go. -/
def Fit (tree : Tree) (parent child : NodeId) : Prop :=
  (∃ node, tree.get? parent = some node ∧ node.isLeaf = false) ∧
    ∃ node, tree.get? child = some node ∧ node.isState = false

theorem Coherent.fit {parent child : NodeId} (coherent : tree.Coherent)
    (step : tree.IsChild parent child) : tree.Fit parent child := by
  refine ⟨?_, coherent.closed parent child step⟩
  rcases step with ⟨node, found, childMem⟩
  refine ⟨node, found, ?_⟩
  by_contra leaf
  rw [Bool.not_eq_false] at leaf
  simp [Node.children, coherent.leaves parent node found leaf] at childMem

/-! ## Paths and a new edge -/

/-- A path in a graph with one more edge either is an old path, or it leads to the start of the new
edge and goes on from its end. -/
theorem path_or_through {old new : NodeId → NodeId → Prop} {start target parent child : NodeId}
    (edges : ∀ id other, new id other → old id other ∨ (id = parent ∧ other = child))
    (path : TransGen new start target) :
    TransGen old start target ∨ (ReflTransGen old start parent ∧ ReflTransGen old child target) := by
  induction path with
  | single step =>
      rcases edges _ _ step with step | ⟨rfl, rfl⟩
      · exact .inl (.single step)
      · exact .inr ⟨.refl, .refl⟩
  | tail _ step ih =>
      rcases edges _ _ step with step | ⟨rfl, rfl⟩
      · exact ih.imp (fun path => path.tail step) fun through => ⟨through.1, through.2.tail step⟩
      · exact .inr ⟨ih.elim TransGen.to_reflTransGen And.left, .refl⟩

theorem acyclic_of_new_edge {old new : NodeId → NodeId → Prop} {parent child : NodeId}
    (acyclic : ∀ id, ¬TransGen old id id)
    (edges : ∀ id other, new id other → old id other ∨ (id = parent ∧ other = child))
    (notSame : parent ≠ child) (notAbove : ¬TransGen old child parent) (id : NodeId) :
    ¬TransGen new id id := by
  intro cycle
  rcases path_or_through edges cycle with path | ⟨toParent, fromChild⟩
  · exact acyclic id path
  · rcases reflTransGen_iff_eq_or_transGen.mp (fromChild.trans toParent) with same | above
    · exact notSame same
    · exact notAbove above

theorem acyclic_of_subgraph {old new : NodeId → NodeId → Prop}
    (acyclic : ∀ id, ¬TransGen old id id) (edges : ∀ id other, new id other → old id other)
    (id : NodeId) : ¬TransGen new id id :=
  fun cycle => acyclic id (TransGen.mono edges _ _ cycle)

/-- A path between renamed nodes is a renamed path, if all edges are renamed edges. -/
theorem Coherent.exists_path_of_renamed {place : NodeId → NodeId} (coherent : tree.Coherent)
    (distinct : ∀ id ∈ tree.pool.ids, ∀ other ∈ tree.pool.ids, place id = place other → id = other)
    (edges : ∀ parent child, after.IsChild parent child → ∃ oldParent oldChild,
      tree.IsChild oldParent oldChild ∧ parent = place oldParent ∧ child = place oldChild)
    {start target : NodeId} (pooled : start ∈ tree.pool.ids)
    (path : TransGen after.IsChild (place start) target) :
    ∃ old, TransGen tree.IsChild start old ∧ target = place old := by
  induction path with
  | single step =>
      rcases edges _ _ step with ⟨parent, child, oldStep, same, rfl⟩
      rw [← distinct start pooled parent oldStep.parent_mem_ids same] at oldStep
      exact ⟨child, .single oldStep, rfl⟩
  | tail _ step ih =>
      rcases ih with ⟨middle, oldPath, rfl⟩
      rcases edges _ _ step with ⟨parent, child, oldStep, same, rfl⟩
      rcases TransGen.tail'_iff.mp oldPath with ⟨_, _, last⟩
      have middlePooled := coherent.child_mem_ids last
      rw [← distinct middle middlePooled parent oldStep.parent_mem_ids same] at oldStep
      exact ⟨child, oldPath.tail oldStep, rfl⟩

theorem edges_eq_nil_of_not_isChild {id : NodeId} {node : Node} (found : tree.get? id = some node)
    (none : ∀ child, ¬tree.IsChild id child) : node.edges = [] := by
  rcases edges : node.edges with _ | ⟨edge, rest⟩
  · rfl
  · exact absurd ⟨node, found, by simp [Node.children, edges]⟩ (none edge.child)

/-! ## Changes in place -/

namespace InPlace

theorem node {id : NodeId} {newNode : Node} (inPlace : tree.InPlace after)
    (found : after.get? id = some newNode) :
    ∃ node, tree.get? id = some node ∧ newNode.role = node.role := by
  have roles := inPlace.roles id
  rw [found, Option.map_some] at roles
  rcases Option.map_eq_some_iff.mp roles.symm with ⟨node, oldFound, same⟩
  exact ⟨node, oldFound, same.symm⟩

theorem symm (inPlace : tree.InPlace after) : after.InPlace tree where
  ids := inPlace.ids.symm
  created := inPlace.created.symm
  states := inPlace.states.symm
  roles := fun id => (inPlace.roles id).symm

theorem trans {last : Tree} (first : tree.InPlace after) (second : after.InPlace last) :
    tree.InPlace last where
  ids := second.ids.trans first.ids
  created := second.created.trans first.created
  states := second.states.trans first.states
  roles := fun id => (second.roles id).trans (first.roles id)

theorem modify (tree : Tree) (id : NodeId) {change : Node → Node}
    (kept : ∀ node, tree.get? id = some node → (change node).role = node.role) :
    tree.InPlace (tree.modify id change) where
  ids := Pool.ids_modify _ _ _
  created := rfl
  states := rfl
  roles := by
    intro other
    rw [get?_modify, Option.map_map]
    refine Option.map_congr fun node found => ?_
    simp only [Function.comp_apply]
    split
    · next same => exact kept node (same ▸ found)
    · rfl

theorem mapEdges (tree : Tree) (change : Edge → Edge) :
    tree.InPlace { tree with pool := tree.pool.mapEdges change } where
  ids := Pool.ids_mapEdges _ _
  created := rfl
  states := rfl
  roles := by
    intro other
    simp only [get?, Pool.get?_mapEdges, Option.map_map]
    rfl

/-- A change in place keeps a graph coherent if its edges stay fit and close no cycle. -/
theorem coherent_of_fit (inPlace : tree.InPlace after) (coherent : tree.Coherent)
    (fit : ∀ parent child, after.IsChild parent child → tree.Fit parent child)
    (acyclic : ∀ id, ¬TransGen after.IsChild id id) : after.Coherent where
  ordered := inPlace.ids ▸ coherent.ordered
  bounded := inPlace.ids ▸ inPlace.created ▸ coherent.bounded
  closed := by
    intro id other step
    rcases (fit id other step).2 with ⟨node, found, ordinary⟩
    rcases inPlace.symm.node found with ⟨newNode, newFound, same⟩
    exact ⟨newNode, newFound, by simp_all [Node.role]⟩
  leaves := by
    intro id newNode newFound leaf
    apply edges_eq_nil_of_not_isChild newFound
    intro other step
    rcases (fit id other step).1 with ⟨node, found, inner⟩
    rcases inPlace.node newFound with ⟨oldNode, oldFound, same⟩
    simp_all [Node.role]
  acyclic := acyclic

theorem coherent_of_new_edge {parent child : NodeId} (inPlace : tree.InPlace after)
    (coherent : tree.Coherent)
    (edges : ∀ id other, after.IsChild id other →
      tree.IsChild id other ∨ (id = parent ∧ other = child))
    (fit : tree.Fit parent child) (notSame : parent ≠ child)
    (notAbove : ¬TransGen tree.IsChild child parent) : after.Coherent := by
  refine inPlace.coherent_of_fit coherent ?_
    (acyclic_of_new_edge coherent.acyclic edges notSame notAbove)
  intro id other step
  rcases edges id other step with old | ⟨rfl, rfl⟩
  · exact coherent.fit old
  · exact fit

theorem coherent_of_subgraph (inPlace : tree.InPlace after) (coherent : tree.Coherent)
    (edges : ∀ id other, after.IsChild id other → tree.IsChild id other) : after.Coherent :=
  inPlace.coherent_of_fit coherent (fun id other step => coherent.fit (edges id other step))
    (acyclic_of_subgraph coherent.acyclic edges)

theorem exists_state_iff (inPlace : tree.InPlace after) (id : NodeId) :
    (∃ node, after.get? id = some node ∧ node.isState = true) ↔
      ∃ node, tree.get? id = some node ∧ node.isState = true := by
  constructor
  · rintro ⟨newNode, newFound, isState⟩
    rcases inPlace.node newFound with ⟨node, found, same⟩
    exact ⟨node, found, by simp_all [Node.role]⟩
  · rintro ⟨node, found, isState⟩
    rcases inPlace.symm.node found with ⟨newNode, newFound, same⟩
    exact ⟨newNode, newFound, by simp_all [Node.role]⟩

theorem rooted (inPlace : tree.InPlace after) (rooted : tree.Rooted) (coherent : after.Coherent) :
    after.Rooted where
  toCoherent := coherent
  states_nonempty := inPlace.states ▸ rooted.states_nonempty
  states_distinct := inPlace.states ▸ rooted.states_distinct
  mem_states := by
    intro id
    rw [inPlace.states, rooted.mem_states, inPlace.exists_state_iff]

/-- Names and numbers of children decide whether a change in place stays within what an editor
ensures. -/
theorem authored (inPlace : tree.InPlace after) (authored : tree.Authored)
    (coherent : after.Coherent)
    (names : ∀ id, (after.get? id).map Node.name = (tree.get? id).map Node.name)
    (defaultState : after.defaultState = tree.defaultState)
    (single : ∀ id node newNode, tree.get? id = some node → after.get? id = some newNode →
      newNode.kind.isDecorator = true → newNode.edges.length ≤ 1) : after.Authored where
  toRooted := inPlace.rooted authored.toRooted coherent
  names_distinct := by
    intro id member other otherMember newNode newOther newFound newOtherFound same
    rcases inPlace.node newFound with ⟨node, found, _⟩
    rcases inPlace.node newOtherFound with ⟨otherNode, otherFound, _⟩
    have name := names id
    have otherName := names other
    simp only [newFound, found, Option.map_some, Option.some.injEq] at name
    simp only [newOtherFound, otherFound, Option.map_some, Option.some.injEq] at otherName
    exact authored.names_distinct id (inPlace.states ▸ member) other (inPlace.states ▸ otherMember)
      node otherNode found otherFound (by rw [← name, ← otherName, same])
  default_found := by
    rcases authored.default_found with ⟨id, member, node, found, named⟩
    rcases inPlace.symm.node found with ⟨newNode, newFound, _⟩
    have name := names id
    simp only [newFound, found, Option.map_some, Option.some.injEq] at name
    exact ⟨id, inPlace.states ▸ member, newNode, newFound, by rw [name, named, defaultState]⟩
  single := by
    intro id newNode newFound decorator
    rcases inPlace.node newFound with ⟨node, found, _⟩
    exact single id node newNode found newFound decorator

end InPlace

/-! ## Changes that keep all children -/

/-- The same nodes in the same roles with the same children. -/
structure Restyles (tree after : Tree) : Prop extends tree.InPlace after where
  children : ∀ id, (after.get? id).map Node.children = (tree.get? id).map Node.children

namespace Restyles

theorem of_pool (pool : after.pool = tree.pool) (created : after.created = tree.created)
    (states : after.states = tree.states) : tree.Restyles after where
  ids := by rw [pool]
  created := created
  states := states
  roles := fun id => by rw [get?, get?, pool]
  children := fun id => by rw [get?, get?, pool]

theorem trans {last : Tree} (first : tree.Restyles after) (second : after.Restyles last) :
    tree.Restyles last where
  toInPlace := first.toInPlace.trans second.toInPlace
  children := fun id => (second.children id).trans (first.children id)

theorem modify (tree : Tree) (id : NodeId) {change : Node → Node}
    (role : ∀ node, tree.get? id = some node → (change node).role = node.role)
    (children : ∀ node, (change node).children = node.children) :
    tree.Restyles (tree.modify id change) where
  toInPlace := InPlace.modify tree id role
  children := by
    intro other
    rw [get?_modify, Option.map_map]
    refine Option.map_congr fun node _ => ?_
    simp only [Function.comp_apply]
    split
    · exact children node
    · rfl

theorem mapEdges (tree : Tree) {change : Edge → Edge}
    (child : ∀ edge, (change edge).child = edge.child) :
    tree.Restyles { tree with pool := tree.pool.mapEdges change } where
  toInPlace := InPlace.mapEdges tree change
  children := by
    intro id
    simp only [get?, Pool.get?_mapEdges, Option.map_map]
    refine Option.map_congr fun node _ => ?_
    simp [Node.children, child]

theorem isChild {parent child : NodeId} (restyles : tree.Restyles after)
    (step : after.IsChild parent child) : tree.IsChild parent child := by
  rcases step with ⟨newNode, newFound, childMem⟩
  have children := restyles.children parent
  rw [newFound, Option.map_some] at children
  rcases Option.map_eq_some_iff.mp children.symm with ⟨node, found, same⟩
  exact ⟨node, found, same ▸ childMem⟩

theorem coherent (restyles : tree.Restyles after) (coherent : tree.Coherent) : after.Coherent :=
  restyles.coherent_of_subgraph coherent fun _ _ => restyles.isChild

theorem single (restyles : tree.Restyles after) (authored : tree.Authored) (id : NodeId)
    (node newNode : Node) (found : tree.get? id = some node)
    (newFound : after.get? id = some newNode) (decorator : newNode.kind.isDecorator = true) :
    newNode.edges.length ≤ 1 := by
  have roles := restyles.roles id
  have children := restyles.children id
  simp only [found, newFound, Option.map_some, Option.some.injEq, Node.role, Prod.mk.injEq]
    at roles children
  have bound := authored.single id node found (roles.2.2 ▸ decorator)
  have lengths : newNode.children.length = node.children.length := by rw [children]
  simp only [Node.children, List.length_map] at lengths
  omega

end Restyles

end Tree

end BehaviorTree
