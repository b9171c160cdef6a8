import BehaviorTree.Proofs.Tree.Numbering

/-!
# Copies of trees

The copy of a tree has the same nodes in the order of their numbers, under these numbers.  It is what
a document can say about a tree; the weights of a copy are what has become of them on their way
through the document.
-/

namespace BehaviorTree.Tree

open BehaviorTree.Number Relation

/-- The identity of a node in a copy. -/
def place (tree : Tree) (id : NodeId) : NodeId :=
  ⟨tree.numbered.idxOf id⟩

/-- A node with the identities of its children in a copy. -/
def placed (tree : Tree) (node : Node) : Node :=
  { node with edges := node.edges.map fun edge => { edge with child := tree.place edge.child } }

/-- The same tree under the identities of a copy. -/
structure IsCopy (tree copy : Tree) : Prop where
  name : copy.name = tree.name
  defaultState : copy.defaultState = tree.defaultState
  expandMethods : copy.expandMethods = tree.expandMethods
  /-- The nodes of the copy are those of the tree, each once and in the order of their numbers. -/
  order : copy.pool.ids = tree.numbered.map tree.place
  distinct : ∀ id ∈ tree.pool.ids, ∀ other ∈ tree.pool.ids,
    tree.place id = tree.place other → id = other
  states : copy.states = tree.states.map tree.place
  nodes : ∀ id node, tree.get? id = some node →
    copy.get? (tree.place id) = some (tree.placed node)

def copiedNode (tree : Tree) (weigh : Single → Single) (node : Node) : Node :=
  { tree.placed node with weight := weigh node.weight }

/-- The copy of a tree with other weights. -/
def copy (tree : Tree) (weigh : Single → Single) : Tree :=
  { tree with
    states := tree.states.map tree.place
    pool := tree.numbered.filterMap fun id =>
      (tree.get? id).map fun node => (tree.place id, tree.copiedNode weigh node)
    created := tree.numbered.length }

variable {tree : Tree} {weigh : Single → Single}

/-! ## Identities -/

theorem place_injective {id other : NodeId} (pooled : id ∈ tree.pool.ids)
    (same : tree.place id = tree.place other) : id = other := by
  rw [place, place, NodeId.mk.injEq] at same
  exact (List.idxOf_inj (mem_numbered_iff.mpr pooled)).mp same

theorem map_place_numbered (distinct : tree.pool.ids.Nodup) :
    tree.numbered.map tree.place = (List.range tree.numbered.length).map NodeId.mk := by
  apply List.ext_getElem
  · simp
  · intro index inside _
    rw [List.length_map] at inside
    simp [place, (nodup_numbered distinct).idxOf_getElem index inside]

theorem ids_copy (tree : Tree) (weigh : Single → Single) :
    (tree.copy weigh).pool.ids = tree.numbered.map tree.place := by
  rw [copy, Pool.ids, List.map_filterMap, ← List.filterMap_eq_map]
  refine List.filterMap_congr fun id member => ?_
  rcases Pool.mem_ids_iff.mp (mem_numbered_iff.mp member) with ⟨node, found⟩
  rw [get?, found]
  rfl

theorem ids_copy_eq_range (distinct : tree.pool.ids.Nodup) :
    (tree.copy weigh).pool.ids = (List.range (tree.copy weigh).created).map NodeId.mk := by
  rw [ids_copy, map_place_numbered distinct]
  rfl

theorem pairwise_ids_copy (distinct : tree.pool.ids.Nodup) :
    (tree.copy weigh).pool.ids.Pairwise (·.index < ·.index) := by
  rw [ids_copy_eq_range distinct, List.pairwise_map]
  exact List.pairwise_lt_range

/-! ## Nodes -/

theorem get?_copy_eq_some (distinct : tree.pool.ids.Nodup) {id : NodeId} {node : Node}
    (found : tree.get? id = some node) :
    (tree.copy weigh).get? (tree.place id) = some (tree.copiedNode weigh node) := by
  apply Pool.get?_of_mem
  · apply (pairwise_ids_copy distinct).imp
    rintro id _ smaller rfl
    exact Nat.lt_irrefl _ smaller
  · refine List.mem_filterMap.mpr ⟨id, mem_numbered_iff.mpr (Pool.mem_ids_of_get? found), ?_⟩
    rw [found]
    rfl

theorem exists_of_get?_copy {id : NodeId} {copied : Node}
    (found : (tree.copy weigh).get? id = some copied) :
    ∃ old node, tree.get? old = some node ∧ id = tree.place old ∧
      copied = tree.copiedNode weigh node := by
  rcases List.mem_filterMap.mp (Pool.mem_of_get? found) with ⟨old, _, made⟩
  rcases Option.map_eq_some_iff.mp made with ⟨node, oldFound, same⟩
  rw [Prod.mk.injEq] at same
  exact ⟨old, node, oldFound, same.1.symm, same.2.symm⟩

theorem children_copiedNode (tree : Tree) (weigh : Single → Single) (node : Node) :
    (tree.copiedNode weigh node).children = node.children.map tree.place := by
  simp [copiedNode, placed, Node.children, Function.comp_def]

theorem exists_of_isChild_copy {parent child : NodeId}
    (step : (tree.copy weigh).IsChild parent child) :
    ∃ oldParent oldChild, tree.IsChild oldParent oldChild ∧ parent = tree.place oldParent ∧
      child = tree.place oldChild := by
  rcases step with ⟨copied, found, childMem⟩
  rcases exists_of_get?_copy found with ⟨old, node, oldFound, rfl, rfl⟩
  rw [children_copiedNode] at childMem
  rcases List.mem_map.mp childMem with ⟨oldChild, oldMem, rfl⟩
  exact ⟨old, oldChild, ⟨node, oldFound, oldMem⟩, rfl, rfl⟩

/-! ## Invariants -/

theorem Coherent.copy (coherent : tree.Coherent) (weigh : Single → Single) :
    (tree.copy weigh).Coherent where
  ordered := pairwise_ids_copy coherent.nodup_ids
  bounded := by
    intro id member
    rw [ids_copy_eq_range coherent.nodup_ids] at member
    rcases List.mem_map.mp member with ⟨index, inside, rfl⟩
    exact List.mem_range.mp inside
  closed := by
    intro parent child step
    rcases exists_of_isChild_copy step with ⟨oldParent, oldChild, oldStep, rfl, rfl⟩
    rcases coherent.closed oldParent oldChild oldStep with ⟨node, found, ordinary⟩
    exact ⟨tree.copiedNode weigh node, get?_copy_eq_some coherent.nodup_ids found, ordinary⟩
  leaves := by
    intro id copied found leaf
    rcases exists_of_get?_copy found with ⟨old, node, oldFound, rfl, rfl⟩
    have none := coherent.leaves old node oldFound leaf
    simp [copiedNode, placed, none]
  acyclic := by
    intro id cycle
    rcases TransGen.head'_iff.mp cycle with ⟨_, step, _⟩
    rcases exists_of_isChild_copy step with ⟨old, _, oldStep, rfl, _⟩
    have pooled := oldStep.parent_mem_ids
    rcases coherent.exists_path_of_renamed (fun id member other _ => place_injective member)
      (fun _ _ => exists_of_isChild_copy) pooled cycle with ⟨target, path, same⟩
    rw [← place_injective pooled same] at path
    exact coherent.acyclic old path

theorem Rooted.copy (rooted : tree.Rooted) (weigh : Single → Single) :
    (tree.copy weigh).Rooted where
  toCoherent := rooted.toCoherent.copy weigh
  states_nonempty := by
    change tree.states.map tree.place ≠ []
    simpa using rooted.states_nonempty
  states_distinct := by
    refine List.Nodup.map_on ?_ rooted.states_distinct
    intro id member other _ same
    rcases rooted.pooled id member with ⟨node, found⟩
    exact place_injective (Pool.mem_ids_of_get? found) same
  mem_states := by
    intro id
    constructor
    · intro member
      rcases List.mem_map.mp member with ⟨old, oldMem, rfl⟩
      rcases (rooted.mem_states old).mp oldMem with ⟨node, found, isState⟩
      exact ⟨tree.copiedNode weigh node, get?_copy_eq_some rooted.nodup_ids found, isState⟩
    · rintro ⟨copied, found, isState⟩
      rcases exists_of_get?_copy found with ⟨old, node, oldFound, rfl, rfl⟩
      exact List.mem_map_of_mem ((rooted.mem_states old).mpr ⟨node, oldFound, isState⟩)

theorem Fitted.copy (fitted : tree.Fitted) (coherent : tree.Coherent) (weigh : Single → Single) :
    (tree.copy weigh).Fitted := by
  intro id copied found edge member definitions defined
  rcases exists_of_get?_copy found with ⟨old, node, oldFound, rfl, rfl⟩
  rcases List.mem_map.mp member with ⟨oldEdge, oldMem, rfl⟩
  apply fitted old node oldFound oldEdge oldMem definitions
  rcases coherent.closed old oldEdge.child ⟨node, oldFound, List.mem_map_of_mem oldMem⟩ with
    ⟨child, childFound, _⟩
  rw [definitions?, get?_copy_eq_some coherent.nodup_ids childFound] at defined
  rw [definitions?, childFound]
  exact defined

/-! ## Numbers -/

theorem Rooted.hierarchy_copy (rooted : tree.Rooted) (weigh : Single → Single) :
    (tree.copy weigh).hierarchy = tree.hierarchy.map tree.place := by
  have walked : (tree.copy weigh).walk (tree.states.map tree.place) (List.map tree.place []) =
      ((tree.walk tree.states []).1.map tree.place,
        (tree.walk tree.states []).2.map tree.place) := by
    refine walk_map (· ∈ tree.pool.ids) (fun id member other _ => place_injective member)
      (fun _ _ _ step => rooted.toCoherent.child_mem_ids step) ?_ ?_ nofun
    · intro id member
      rcases Tree.exists_get? member with ⟨node, stored⟩
      rw [get?_copy_eq_some rooted.nodup_ids stored, stored, Option.map_some, Option.map_some,
        children_copiedNode]
    · intro id member
      rcases rooted.pooled id member with ⟨node, found⟩
      exact Pool.mem_ids_of_get? found
  rw [hierarchy_eq_walk, hierarchy_eq_walk]
  exact congrArg Prod.snd walked

theorem Rooted.extras_copy (rooted : tree.Rooted) (weigh : Single → Single) :
    (tree.copy weigh).extras = tree.extras.map tree.place := by
  have mem_hierarchy_copy_iff : ∀ id ∈ tree.pool.ids,
      tree.place id ∈ (tree.copy weigh).hierarchy ↔ id ∈ tree.hierarchy := by
    intro id pooled
    rw [rooted.hierarchy_copy]
    constructor
    · intro member
      rcases List.mem_map.mp member with ⟨other, otherMem, same⟩
      exact place_injective pooled same.symm ▸ otherMem
    · exact List.mem_map_of_mem
  have reached : (tree.hierarchy.map tree.place).filter
      (· ∉ (tree.copy weigh).hierarchy) = [] := by
    rw [List.filter_eq_nil_iff]
    intro id member
    simpa [rooted.hierarchy_copy] using member
  have unreached : (tree.extras.map tree.place).filter
      (· ∉ (tree.copy weigh).hierarchy) = tree.extras.map tree.place := by
    rw [List.filter_eq_self]
    intro id member
    rcases List.mem_map.mp member with ⟨old, oldMem, rfl⟩
    rcases mem_extras_iff.mp oldMem with ⟨pooled, notReached⟩
    simpa [mem_hierarchy_copy_iff old pooled] using notReached
  rw [Tree.extras, ids_copy, numbered, List.map_append, List.filter_append, reached, unreached,
    List.nil_append]

/-- The numbers of a copy are its identities. -/
theorem Rooted.numbered_copy (rooted : tree.Rooted) (weigh : Single → Single) :
    (tree.copy weigh).numbered = (tree.copy weigh).pool.ids := by
  rw [ids_copy, Tree.numbered, Tree.numbered, rooted.hierarchy_copy, rooted.extras_copy,
    List.map_append]

/-- The copy of a tree is the same tree, if no pooled weight changes. -/
theorem Coherent.isCopy_copy (coherent : tree.Coherent)
    (same : ∀ id node, tree.get? id = some node → weigh node.weight = node.weight) :
    tree.IsCopy (tree.copy weigh) where
  name := rfl
  defaultState := rfl
  expandMethods := rfl
  order := ids_copy tree weigh
  distinct := fun _ pooled _ _ => place_injective pooled
  states := rfl
  nodes := by
    intro id node found
    rw [get?_copy_eq_some coherent.nodup_ids found, copiedNode, same id node found]
    rfl

end BehaviorTree.Tree
