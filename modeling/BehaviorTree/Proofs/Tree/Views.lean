import BehaviorTree.Proofs.Tree.Numbering
import BehaviorTree.Proofs.Tree.Refusals

/-!
# Views of the hierarchy

There are three ways to ask what the states reach: the list that a walk collects, a search for one
node, and a look at the parents of a node.  They agree, whatever the shape of the graph; only an
edge that leads out of the pool would be followed by the search and not be listed by the walk.
-/

namespace BehaviorTree

open Relation

theorem Node.isSome_indexOf?_iff {node : Node} {child : NodeId} :
    (node.indexOf? child).isSome = true ↔ child ∈ node.children := by
  simp [Node.indexOf?, Node.children]

namespace Tree

variable {tree : Tree} {id parent : NodeId}

/-! ## Parents -/

theorem mem_parentsOf_iff (distinct : tree.pool.ids.Nodup) :
    parent ∈ tree.parentsOf id ↔ tree.IsChild parent id := by
  simp only [parentsOf, List.mem_map, List.mem_filter, Node.isSome_indexOf?_iff]
  constructor
  · rintro ⟨⟨_, node⟩, ⟨member, childMem⟩, rfl⟩
    exact ⟨node, Pool.get?_of_mem distinct member, childMem⟩
  · rintro ⟨node, found, childMem⟩
    exact ⟨(parent, node), ⟨Pool.mem_of_get? found, childMem⟩, rfl⟩

/-- What is reached is a state, or a child of something that is reached. -/
theorem isReached_iff_parent :
    tree.IsReached id ↔
      id ∈ tree.states ∨ ∃ parent, tree.IsChild parent id ∧ tree.IsReached parent := by
  constructor
  · rintro ⟨state, member, path⟩
    rcases path.cases_tail with rfl | ⟨parent, above, step⟩
    · exact .inl member
    · exact .inr ⟨parent, step, state, member, above⟩
  · rintro (member | ⟨parent, step, state, member, above⟩)
    · exact ⟨id, member, .refl⟩
    · exact ⟨state, member, above.tail step⟩

/-- The search agrees with the walk one step up. -/
theorem isInHierarchy_iff_parent (distinct : tree.pool.ids.Nodup) :
    tree.isInHierarchy id = true ↔
      id ∈ tree.states ∨ ∃ parent ∈ tree.parentsOf id, parent ∈ tree.hierarchy := by
  rw [isInHierarchy_iff, isReached_iff_parent]
  apply or_congr_right
  apply exists_congr
  intro parent
  rw [mem_parentsOf_iff distinct, mem_hierarchy_iff]
  apply and_congr_right
  rintro ⟨node, found, _⟩
  exact (and_iff_left ⟨node, found⟩).symm

/-! ## The walk and the search -/

theorem mem_hierarchy_iff_isInHierarchy (pooled : id ∈ tree.pool.ids) :
    id ∈ tree.hierarchy ↔ tree.isInHierarchy id = true := by
  rw [mem_hierarchy_iff, isInHierarchy_iff]
  exact and_iff_left (Pool.mem_ids_iff.mp pooled)

/-- No path leads from a state out of the pool. -/
theorem Rooted.mem_ids_of_isReached (rooted : tree.Rooted) (reached : tree.IsReached id) :
    id ∈ tree.pool.ids := by
  rcases isReached_iff_parent.mp reached with state | ⟨parent, step, _⟩
  · exact rooted.orderly.pooled id state
  · exact rooted.child_mem_ids step

theorem Rooted.mem_hierarchy_iff_isInHierarchy (rooted : tree.Rooted) (id : NodeId) :
    id ∈ tree.hierarchy ↔ tree.isInHierarchy id = true := by
  by_cases pooled : id ∈ tree.pool.ids
  · exact Tree.mem_hierarchy_iff_isInHierarchy pooled
  · rw [mem_hierarchy_iff, isInHierarchy_iff]
    constructor
    · exact And.left
    · intro reached
      exact absurd (rooted.mem_ids_of_isReached reached) pooled

/-! ## The rest of the pool -/

theorem Orderly.extras_ascending (orderly : tree.Orderly) :
    tree.extras.Pairwise (·.index < ·.index) :=
  orderly.ordered.filter _

theorem number?_eq_some_iff (distinct : tree.pool.ids.Nodup) {number : Nat} :
    tree.number? id = some number ↔ tree.numbered[number]? = some id := by
  rw [number?, List.idxOf?_eq_some_iff, List.getElem?_eq_some_iff]
  constructor
  · rintro ⟨inside, place, _⟩
    exact ⟨inside, place⟩
  · rintro ⟨inside, place⟩
    refine ⟨inside, place, ?_⟩
    intro earlier before same
    have equal := (nodup_numbered distinct).getElem_inj_iff.mp (same.trans place.symm)
    omega

/-- Every pooled node has one number. -/
theorem exists_number? (distinct : tree.pool.ids.Nodup) (pooled : id ∈ tree.pool.ids) :
    ∃ number, tree.number? id = some number ∧
      ∀ other, tree.numbered[other]? = some id ↔ other = number := by
  rcases List.getElem?_of_mem (mem_numbered_iff.mpr pooled) with ⟨number, place⟩
  have numbered := (number?_eq_some_iff distinct).mpr place
  refine ⟨number, numbered, ?_⟩
  intro other
  rw [← number?_eq_some_iff distinct, numbered, Option.some.injEq, eq_comm]

end Tree

end BehaviorTree
