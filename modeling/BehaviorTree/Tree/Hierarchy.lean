import BehaviorTree.Tree.Basic

/-!
# The hierarchy

The nodes that the states reach, in the order of a depth first walk.  The walk keeps the identities
it has met; what bounds it is the number of edges that leave nodes it has not met.  Whether one node
reaches another is a search of its own, which stops at its target.
-/

namespace BehaviorTree

namespace Pool

/-- How many edges leave the nodes that have not been visited. -/
def unexplored : Pool → List NodeId → Nat
  | [], _ => 0
  | (id, node) :: pool, visited =>
      (if id ∈ visited then 0 else node.edges.length) + unexplored pool visited

theorem unexplored_visit_le (pool : Pool) (visited : List NodeId) (id : NodeId) :
    pool.unexplored (id :: visited) ≤ pool.unexplored visited := by
  induction pool with
  | nil => simp [unexplored]
  | cons entry pool ih =>
      simp only [unexplored, List.mem_cons]
      split <;> split <;> simp_all
      omega

theorem unexplored_visit_add_le {pool : Pool} {visited : List NodeId} {id : NodeId} {node : Node}
    (found : pool.get? id = some node) (fresh : id ∉ visited) :
    pool.unexplored (id :: visited) + node.edges.length ≤ pool.unexplored visited := by
  induction pool with
  | nil => simp [get?] at found
  | cons entry pool ih =>
      obtain ⟨other, candidate⟩ := entry
      simp only [get?, List.lookup_cons] at found ih
      simp only [unexplored, List.mem_cons]
      by_cases same : id = other
      · subst same
        have rest := unexplored_visit_le pool visited id
        simp_all
        omega
      · have different : (id == other) = false := by simpa using same
        rw [different] at found
        have rest := ih found
        have reversed : ¬other = id := fun equal => same equal.symm
        simp only [reversed, false_or]
        omega

end Pool

namespace Tree

/-- The pooled identities that a depth first walk meets for the first time, in the order of the
walk.  `stack` holds what is still to be walked, the next one first. -/
def walk (tree : Tree) (stack visited : List NodeId) : List NodeId × List NodeId :=
  match stack with
  | [] => (visited, [])
  | id :: stack =>
      if _ : id ∈ visited then
        tree.walk stack visited
      else
        match _ : tree.get? id with
        | none => tree.walk stack (id :: visited)
        | some node =>
            let (visited, met) := tree.walk (node.children ++ stack) (id :: visited)
            (visited, id :: met)
termination_by stack.length + tree.pool.unexplored visited
decreasing_by
  · simp only [List.length_cons]
    omega
  · have bound := tree.pool.unexplored_visit_le visited id
    simp only [List.length_cons]
    omega
  · have bound := Pool.unexplored_visit_add_le ‹tree.get? id = some node› ‹id ∉ visited›
    simp only [List.length_append, List.length_cons, Node.children, List.length_map]
    omega

/-- A walk from one root: the identities visited afterwards, and those collected, after the ones
that had been collected before. -/
def collect (tree : Tree) (root : NodeId) (visited collected : List NodeId) :
    List NodeId × List NodeId :=
  let (visited, met) := tree.walk [root] visited
  (visited, collected ++ met)

/-- The nodes that the states reach, each once. -/
def hierarchy (tree : Tree) : List NodeId :=
  (tree.states.foldl (fun (visited, collected) state => tree.collect state visited collected)
    ([], [])).2

/-- The pooled nodes that no state reaches, in the order of the pool. -/
def extras (tree : Tree) : List NodeId :=
  let reached := tree.hierarchy
  tree.pool.ids.filter (· ∉ reached)

/-- Whether a search from `stack` comes to `target`. -/
def search (tree : Tree) (target : NodeId) (stack visited : List NodeId) : Bool :=
  match stack with
  | [] => false
  | id :: stack =>
      if id = target then
        true
      else if _ : id ∈ visited then
        tree.search target stack visited
      else
        match _ : tree.get? id with
        | none => tree.search target stack (id :: visited)
        | some node => tree.search target (node.children ++ stack) (id :: visited)
termination_by stack.length + tree.pool.unexplored visited
decreasing_by
  · simp only [List.length_cons]
    omega
  · have bound := tree.pool.unexplored_visit_le visited id
    simp only [List.length_cons]
    omega
  · have bound := Pool.unexplored_visit_add_le ‹tree.get? id = some node› ‹id ∉ visited›
    simp only [List.length_append, List.length_cons, Node.children, List.length_map]
    omega

/-- Whether `target` is a strict descendant of a node. -/
def reaches (tree : Tree) (start target : NodeId) : Bool :=
  match tree.get? start with
  | some node => tree.search target node.children []
  | none => false

/-- Whether a node is a state or a descendant of one. -/
def isInHierarchy (tree : Tree) (id : NodeId) : Bool :=
  tree.states.any fun state => state = id || tree.reaches state id

end Tree

end BehaviorTree
