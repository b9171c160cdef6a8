import BehaviorTree.Proofs.Tree.Pool

/-!
# Links

A link is an edge without its bindings.  The links of a tree are a multiset: one node may have
several edges to the same child, and where among its siblings a child stands does not matter here.
-/

namespace BehaviorTree

/-- The two ends of an edge, the parent first. -/
abbrev Link := NodeId × NodeId

namespace Pool

variable {pool : Pool} {id : NodeId} {node : Node}

def links (pool : Pool) : List Link :=
  pool.flatMap fun (id, node) => node.children.map fun child => (id, child)

theorem links_cons (entry : NodeId × Node) (pool : Pool) :
    Pool.links (entry :: pool) =
      (entry.2.children.map fun child => (entry.1, child)) ++ pool.links :=
  List.flatMap_cons

theorem links_append (front back : Pool) :
    Pool.links (front ++ back) = front.links ++ back.links :=
  List.flatMap_append

/-- A new node without children brings no link. -/
theorem links_append_bare (childless : node.edges = []) :
    Pool.links (pool ++ [(id, node)]) = pool.links := by
  rw [links_append, links_cons, Node.children, childless]
  exact List.append_nil _

theorem links_mapNodes {change : Node → Node}
    (children : ∀ node, (change node).children = node.children) :
    (pool.mapNodes change).links = pool.links := by
  induction pool with
  | nil => rfl
  | cons entry pool ih =>
      rw [mapNodes, List.map_cons, links_cons, links_cons, children]
      exact congrArg _ ih

theorem links_modify {change : Node → Node}
    (children : ∀ node, (change node).children = node.children) :
    (pool.modify id change).links = pool.links := by
  induction pool with
  | nil => rfl
  | cons entry pool ih =>
      have same : (if entry.1 = id then change entry.2 else entry.2).children =
          entry.2.children := by
        split
        · exact children entry.2
        · rfl
      rw [modify, List.map_cons, links_cons, links_cons, same]
      exact congrArg _ ih

theorem links_detached (pool : Pool) (id : NodeId) :
    (pool.mapNodes fun node => node.detachedFrom id).links =
      pool.links.filter fun link => link.2 ≠ id := by
  induction pool with
  | nil => rfl
  | cons entry pool ih =>
      rw [mapNodes, List.map_cons, links_cons, links_cons, List.filter_append, ← ih]
      congr 1
      simp [Node.children, Node.detachedFrom, List.filter_map, Function.comp_def]

/-- One more edge is one more link. -/
theorem links_insertEdge {position : Nat} {edge : Edge} (distinct : pool.ids.Nodup)
    (found : pool.get? id = some node) (inRange : position ≤ node.edges.length) :
    (pool.modify id fun node =>
        { node with edges := node.edges.insertIdx position edge }).links.Perm
      (pool.links ++ [(id, edge.child)]) := by
  rcases List.append_of_mem (mem_of_get? found) with ⟨front, back, rfl⟩
  have inserted : (node.edges.insertIdx position edge).Perm (edge :: node.edges) :=
    List.perm_insertIdx edge node.edges inRange
  have fromNode := (inserted.map Edge.child).map fun child => (id, child)
  rw [modify_middle distinct, links_append, links_append, links_cons, links_cons,
    List.append_assoc]
  apply List.Perm.append_left
  refine (fromNode.append_right (Pool.links back)).trans ?_
  rw [List.map_cons, List.map_cons, List.cons_append]
  exact (List.perm_append_singleton _ _).symm

/-- The links before and behind an edge. -/
theorem exists_links_around (front back : Pool) (id : NodeId) (node : Node)
    (before behind : List Edge) :
    ∃ first last : List Link, ∀ edge : Edge,
      Pool.links (front ++ (id, { node with edges := before ++ edge :: behind }) :: back) =
        first ++ (id, edge.child) :: last := by
  refine ⟨front.links ++ before.map fun edge => (id, edge.child),
    (behind.map fun edge => (id, edge.child)) ++ back.links, fun edge => ?_⟩
  rw [links_append, links_cons]
  simp [Node.children, Function.comp_def]

/-- Another child in the place of an edge is one link in the place of another. -/
theorem links_replaceEdge {position : Nat} {edge : Edge} {change : Edge → Edge}
    (distinct : pool.ids.Nodup) (found : pool.get? id = some node)
    (edgeFound : node.edges[position]? = some edge) :
    (pool.modify id fun node =>
        { node with edges := node.edges.modify position change }).links.Perm
      (pool.links.erase (id, edge.child) ++ [(id, (change edge).child)]) := by
  rcases List.append_of_mem (mem_of_get? found) with ⟨front, back, rfl⟩
  rcases List.getElem?_eq_some_iff.mp edgeFound with ⟨inRange, _⟩
  rcases List.exists_of_modify change inRange with ⟨before, other, behind, edges, rfl, modified⟩
  have same : other = edge := by simpa [edges] using edgeFound
  subst same
  rcases exists_links_around front back id node before behind with ⟨first, last, around⟩
  have whole : node = { node with edges := before ++ other :: behind } := by rw [← edges]
  rw [modify_middle distinct, modified, around, whole, around]
  have erased : ((first ++ (id, other.child) :: last).erase (id, other.child)).Perm
      (first ++ last) := by
    refine (List.perm_middle.erase _).trans ?_
    rw [List.erase_cons_head]
  refine List.perm_middle.trans ?_
  exact (List.perm_append_singleton _ _).symm.trans (erased.symm.append_right _)

theorem bare_modify {change : Node → Node}
    (onlyEdges : ∀ node, (change node).withEdges [] = node.withEdges []) :
    (pool.modify id change).bare = pool.bare := by
  simp only [bare, mapNodes, modify, List.map_map]
  apply List.map_congr_left
  intro entry _
  simp only [Function.comp_apply]
  split
  · rw [onlyEdges]
  · rfl

end Pool

theorem Tree.links_matchParameters (tree : Tree) :
    tree.matchParameters.pool.links = tree.pool.links := by
  simp only [Tree.matchParameters, Pool.mapEdges]
  apply Pool.links_mapNodes
  intro node
  rw [Node.children, Node.children, List.map_map]
  rfl

theorem Tree.get?_matchParameters {tree : Tree} {id : NodeId} {node : Node}
    (found : tree.get? id = some node) :
    ∃ edges, tree.matchParameters.get? id = some (node.withEdges edges) := by
  rw [get?] at found
  rw [matchParameters, get?, Pool.get?_mapEdges, found]
  exact ⟨_, rfl⟩

end BehaviorTree
