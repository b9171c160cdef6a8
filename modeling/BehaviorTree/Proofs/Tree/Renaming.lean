import BehaviorTree.Proofs.Tree.Copies
import BehaviorTree.Proofs.Tree.Mirrors
import BehaviorTree.Proofs.Tree.Views

/-!
# The same tree under other identities

A tree is renamed to another one if both hold the same nodes, up to identities.  What edits look at is
then the same in both: properties and positions as they are, and which node stands above which.  A
change that is made in both leaves them renamed.
-/

namespace BehaviorTree

open Relation

theorem Node.idxOf?_children (node : Node) (child : NodeId) :
    node.children.idxOf? child = node.indexOf? child := by
  simp only [children, indexOf?, List.idxOf?, List.findIdx?_map]
  rfl

namespace Tree

/-- Another tree is the same tree under other identities. -/
structure Renames (place : NodeId → NodeId) (tree copy : Tree) : Prop where
  name : copy.name = tree.name
  defaultState : copy.defaultState = tree.defaultState
  expandMethods : copy.expandMethods = tree.expandMethods
  states : copy.states = tree.states.map place
  distinct : ∀ id ∈ tree.pool.ids, ∀ other ∈ tree.pool.ids, place id = place other → id = other
  mem_ids : ∀ other, other ∈ copy.pool.ids ↔ ∃ id ∈ tree.pool.ids, place id = other
  nodes : ∀ id node, tree.get? id = some node → copy.get? (place id) = some (node.renamed place)

variable {tree copy : Tree} {place : NodeId → NodeId} {id parent child : NodeId} {node : Node}

theorem IsCopy.renames (isCopy : tree.IsCopy copy) : tree.Renames tree.place copy where
  name := isCopy.name
  defaultState := isCopy.defaultState
  expandMethods := isCopy.expandMethods
  states := isCopy.states
  distinct := isCopy.distinct
  mem_ids := by
    intro other
    rw [isCopy.order]
    simp [mem_numbered_iff]
  nodes := isCopy.nodes

namespace Renames

/-! ## Nodes -/

theorem get? (renames : tree.Renames place copy) (pooled : id ∈ tree.pool.ids) :
    copy.get? (place id) = (tree.get? id).map (Node.renamed place) := by
  rcases Tree.exists_get? pooled with ⟨node, stored⟩
  rw [renames.nodes id node stored, stored, Option.map_some]

theorem exists_node {copied : Node} {other : NodeId} (renames : tree.Renames place copy)
    (found : copy.get? other = some copied) :
    ∃ id node, tree.get? id = some node ∧ other = place id ∧ copied = node.renamed place := by
  rcases (renames.mem_ids other).mp (Pool.mem_ids_of_get? found) with ⟨id, pooled, rfl⟩
  rcases Pool.mem_ids_iff.mp pooled with ⟨node, stored⟩
  rw [renames.nodes id node stored, Option.some.injEq] at found
  exact ⟨id, node, stored, rfl, found.symm⟩

theorem place_inj (renames : tree.Renames place copy) {other : NodeId}
    (pooled : id ∈ tree.pool.ids) (otherPooled : other ∈ tree.pool.ids) :
    place id = place other ↔ id = other := by
  constructor
  · exact renames.distinct id pooled other otherPooled
  · rintro rfl
    rfl

theorem contains (renames : tree.Renames place copy) (pooled : id ∈ tree.pool.ids) :
    copy.contains (place id) = tree.contains id := by
  simp [Tree.contains, renames.get? pooled]

theorem definitions? (renames : tree.Renames place copy) (pooled : id ∈ tree.pool.ids) :
    copy.definitions? (place id) = tree.definitions? id := by
  rw [Tree.definitions?, renames.get? pooled, Option.bind_map]
  rfl

theorem fitBindings (renames : tree.Renames place copy) (pooled : id ∈ tree.pool.ids)
    (bindings : ParameterSet) :
    copy.fitBindings (place id) bindings = tree.fitBindings id bindings := by
  simp [Tree.fitBindings, renames.definitions? pooled]

theorem child_pooled {edge : Edge} (coherent : tree.Coherent) (found : tree.get? id = some node)
    (member : edge ∈ node.edges) : edge.child ∈ tree.pool.ids :=
  coherent.child_mem_ids ⟨node, found, List.mem_map_of_mem member⟩

theorem indexOf? (renames : tree.Renames place copy) (coherent : tree.Coherent)
    (found : tree.get? id = some node) (pooled : child ∈ tree.pool.ids) :
    (node.renamed place).indexOf? (place child) = node.indexOf? child := by
  have numbered : (node.children.map place).idxOf? (place child) = node.children.idxOf? child := by
    apply idxOf?_map
    intro other member
    exact (renames.place_inj pooled (coherent.child_mem_ids ⟨node, found, member⟩)).mp
  rwa [← Node.children_renamed, Node.idxOf?_children, Node.idxOf?_children] at numbered

theorem detachedFrom (renames : tree.Renames place copy) (coherent : tree.Coherent)
    (found : tree.get? id = some node) (pooled : child ∈ tree.pool.ids) :
    (node.renamed place).detachedFrom (place child) = (node.detachedFrom child).renamed place := by
  have kept : (node.edges.map (Edge.renamed place)).filter (·.child ≠ place child) =
      (node.edges.filter (·.child ≠ child)).map (Edge.renamed place) := by
    rw [List.filter_map]
    apply congrArg
    apply List.filter_congr
    intro edge member
    simp [Edge.renamed, renames.place_inj (child_pooled coherent found member) pooled]
  simp only [Node.detachedFrom, Node.renamed, kept]

/-! ## Paths -/

theorem isChild (renames : tree.Renames place copy) (step : tree.IsChild parent child) :
    copy.IsChild (place parent) (place child) := by
  rcases step with ⟨node, found, member⟩
  refine ⟨node.renamed place, renames.nodes parent node found, ?_⟩
  rw [Node.children_renamed]
  exact List.mem_map_of_mem member

theorem exists_isChild (renames : tree.Renames place copy) (step : copy.IsChild parent child) :
    ∃ oldParent oldChild, tree.IsChild oldParent oldChild ∧ parent = place oldParent ∧
      child = place oldChild := by
  rcases step with ⟨copied, found, member⟩
  rcases renames.exists_node found with ⟨id, node, stored, rfl, rfl⟩
  rw [Node.children_renamed] at member
  rcases List.mem_map.mp member with ⟨oldChild, oldMember, rfl⟩
  exact ⟨id, oldChild, ⟨node, stored, oldMember⟩, rfl, rfl⟩

theorem path_iff (renames : tree.Renames place copy) (coherent : tree.Coherent)
    {start target : NodeId} (startPooled : start ∈ tree.pool.ids)
    (targetPooled : target ∈ tree.pool.ids) :
    TransGen copy.IsChild (place start) (place target) ↔ TransGen tree.IsChild start target := by
  constructor
  · intro path
    rcases coherent.exists_path_of_renamed renames.distinct (fun _ _ => renames.exists_isChild)
      startPooled path with ⟨old, oldPath, same⟩
    rcases TransGen.tail'_iff.mp oldPath with ⟨_, _, last⟩
    have oldPooled := coherent.child_mem_ids last
    rwa [← (renames.place_inj targetPooled oldPooled).mp same] at oldPath
  · intro path
    exact path.lift place fun _ _ => renames.isChild

theorem wouldCycle (renames : tree.Renames place copy) (coherent : tree.Coherent)
    (parentPooled : parent ∈ tree.pool.ids) (childPooled : child ∈ tree.pool.ids) :
    copy.wouldCycle (place parent) (place child) = tree.wouldCycle parent child := by
  rw [Bool.eq_iff_iff, ← not_iff_not, Bool.not_eq_true, Bool.not_eq_true,
    wouldCycle_eq_false_iff, wouldCycle_eq_false_iff, ne_eq,
    renames.place_inj parentPooled childPooled, renames.path_iff coherent childPooled parentPooled]

/-! ## States -/

theorem mem_states_iff (renames : tree.Renames place copy) (rooted : tree.Rooted)
    (pooled : id ∈ tree.pool.ids) : place id ∈ copy.states ↔ id ∈ tree.states := by
  rw [renames.states]
  constructor
  · intro member
    rcases List.mem_map.mp member with ⟨state, stateMem, same⟩
    rwa [← (renames.place_inj (rooted.orderly.pooled state stateMem) pooled).mp same]
  · exact List.mem_map_of_mem

theorem mirrors (renames : tree.Renames place copy) (rooted : tree.Rooted) :
    tree.Mirrors place copy where
  name := renames.name
  defaultState := renames.defaultState
  states := renames.states
  distinct := by
    intro id reached other otherReached
    apply renames.distinct
    · exact rooted.mem_ids_of_isReached reached
    · exact rooted.mem_ids_of_isReached otherReached
  nodes := by
    intro id reached
    exact renames.get? (rooted.mem_ids_of_isReached reached)

theorem isInHierarchy (renames : tree.Renames place copy) (rooted : tree.Rooted)
    (copied : copy.Rooted) (pooled : id ∈ tree.pool.ids) :
    copy.isInHierarchy (place id) = tree.isInHierarchy id := by
  rw [Bool.eq_iff_iff, ← copied.mem_hierarchy_iff_isInHierarchy,
    ← rooted.mem_hierarchy_iff_isInHierarchy, (renames.mirrors rooted).hierarchy]
  constructor
  · intro member
    rcases List.mem_map.mp member with ⟨other, otherMem, same⟩
    have otherPooled := rooted.mem_ids_of_isReached (mem_hierarchy_iff.mp otherMem).1
    rwa [← (renames.place_inj otherPooled pooled).mp same]
  · exact List.mem_map_of_mem

theorem erase_states (renames : tree.Renames place copy) (rooted : tree.Rooted)
    (pooled : id ∈ tree.pool.ids) :
    copy.states.erase (place id) = (tree.states.erase id).map place := by
  have distinct : (tree.states.map place).Nodup := by
    apply List.Nodup.map_on _ rooted.states_distinct
    intro state member other otherMember
    apply renames.distinct
    · exact rooted.orderly.pooled state member
    · exact rooted.orderly.pooled other otherMember
  rw [renames.states, distinct.erase_eq_filter, rooted.states_distinct.erase_eq_filter,
    List.filter_map]
  apply congrArg
  apply List.filter_congr
  intro state member
  rw [Function.comp_apply, Bool.eq_iff_iff, bne_iff_ne, bne_iff_ne, ne_eq,
    renames.place_inj (rooted.orderly.pooled state member) pooled]

theorem firstStateName? (renames : tree.Renames place copy)
    (pooled : ∀ id ∈ tree.states, id ∈ tree.pool.ids) :
    copy.firstStateName? = tree.firstStateName? := by
  rw [Tree.firstStateName?, Tree.firstStateName?, renames.states]
  rcases states : tree.states with _ | ⟨first, rest⟩
  · rfl
  · have member : first ∈ tree.states := states ▸ List.mem_cons_self
    simp [renames.get? (pooled first member), Function.comp_def]

/-! ## Changes -/

theorem congr {other : NodeId → NodeId} (renames : tree.Renames place copy)
    (rooted : tree.Rooted) (agree : ∀ id ∈ tree.pool.ids, other id = place id) :
    tree.Renames other copy where
  name := renames.name
  defaultState := renames.defaultState
  expandMethods := renames.expandMethods
  states := by
    rw [renames.states]
    apply List.map_congr_left
    intro id member
    exact (agree id (rooted.orderly.pooled id member)).symm
  distinct := by
    intro id pooled later laterPooled same
    rw [agree id pooled, agree later laterPooled] at same
    exact renames.distinct id pooled later laterPooled same
  mem_ids := by
    intro copied
    rw [renames.mem_ids]
    apply exists_congr
    intro id
    apply and_congr_right
    intro pooled
    rw [agree id pooled]
  nodes := by
    intro id node found
    have edges : node.edges.map (Edge.renamed other) = node.edges.map (Edge.renamed place) := by
      apply List.map_congr_left
      intro edge member
      rw [Edge.renamed, Edge.renamed, agree _ (child_pooled rooted.toCoherent found member)]
    rw [agree id (Pool.mem_ids_of_get? found), renames.nodes id node found, Node.renamed,
      Node.renamed, edges]

/-- The identity of the next node may have any place. -/
theorem renew (renames : tree.Renames place copy) (rooted : tree.Rooted) {next : NodeId} :
    tree.Renames (Function.update place tree.nextId next) copy := by
  apply renames.congr rooted
  intro id pooled
  apply Function.update_of_ne
  rintro rfl
  exact rooted.orderly.nextId_not_mem pooled

theorem withPool {pool copied : Pool} (renames : tree.Renames place copy)
    (ids : pool.ids = tree.pool.ids) (copiedIds : copied.ids = copy.pool.ids)
    (nodes : ∀ id node, pool.get? id = some node →
      copied.get? (place id) = some (node.renamed place)) :
    Renames place { tree with pool } { copy with pool := copied } where
  name := renames.name
  defaultState := renames.defaultState
  expandMethods := renames.expandMethods
  states := renames.states
  distinct := by
    simp only [ids]
    exact renames.distinct
  mem_ids := by
    simp only [ids, copiedIds]
    exact renames.mem_ids
  nodes := nodes

theorem mapNodes {change copied : Node → Node} (renames : tree.Renames place copy)
    (same : ∀ id node, tree.get? id = some node →
      copied (node.renamed place) = (change node).renamed place) :
    Renames place { tree with pool := tree.pool.mapNodes change }
      { copy with pool := copy.pool.mapNodes copied } := by
  apply renames.withPool (Pool.ids_mapNodes _ _) (Pool.ids_mapNodes _ _)
  intro id changed found
  rw [Pool.get?_mapNodes] at found
  rcases Option.map_eq_some_iff.mp found with ⟨node, stored, rfl⟩
  have copiedFound : copy.pool.get? (place id) = _ := renames.nodes id node stored
  rw [Pool.get?_mapNodes, copiedFound, Option.map_some, same id node stored]

theorem mapEdges {change copied : Edge → Edge} (renames : tree.Renames place copy)
    (same : ∀ id node, tree.get? id = some node → ∀ edge ∈ node.edges,
      copied (edge.renamed place) = (change edge).renamed place) :
    Renames place { tree with pool := tree.pool.mapEdges change }
      { copy with pool := copy.pool.mapEdges copied } := by
  apply renames.mapNodes
  intro id node found
  have edges : (node.edges.map (Edge.renamed place)).map copied =
      (node.edges.map change).map (Edge.renamed place) := by
    rw [List.map_map, List.map_map]
    apply List.map_congr_left
    intro edge member
    exact same id node found edge member
  simp only [Node.renamed, edges]

theorem modify {change copied : Node → Node} (renames : tree.Renames place copy)
    (pooled : id ∈ tree.pool.ids)
    (same : ∀ node, tree.get? id = some node →
      copied (node.renamed place) = (change node).renamed place) :
    (tree.modify id change).Renames place (copy.modify (place id) copied) := by
  apply renames.withPool (Pool.ids_modify _ _ _) (Pool.ids_modify _ _ _)
  intro other changed found
  rw [Pool.get?_modify] at found
  rcases Option.map_eq_some_iff.mp found with ⟨node, stored, rfl⟩
  have copiedFound : copy.pool.get? (place other) = _ := renames.nodes other node stored
  rw [Pool.get?_modify, copiedFound, Option.map_some, Option.some.injEq]
  simp only [renames.place_inj (Pool.mem_ids_of_get? stored) pooled]
  split
  · next isChanged => exact same node (isChanged ▸ stored)
  · rfl

theorem withEdges {change copied : List Edge → List Edge} (renames : tree.Renames place copy)
    (pooled : id ∈ tree.pool.ids)
    (same : ∀ node, tree.get? id = some node →
      copied (node.edges.map (Edge.renamed place)) =
        (change node.edges).map (Edge.renamed place)) :
    (tree.withEdges id change).Renames place (copy.withEdges (place id) copied) := by
  apply renames.modify pooled
  intro node found
  simp only [Node.renamed, same node found]

theorem insertEdge (renames : tree.Renames place copy) (pooled : id ∈ tree.pool.ids)
    (position : Nat) (edge : Edge) :
    (tree.insertEdge id position edge).Renames place
      (copy.insertEdge (place id) position (edge.renamed place)) := by
  apply renames.withEdges pooled
  intro node _
  exact (List.map_insertIdx ..).symm

theorem erase (renames : tree.Renames place copy) (pooled : id ∈ tree.pool.ids) :
    Renames place { tree with pool := tree.pool.erase id }
      { copy with pool := copy.pool.erase (place id) } where
  name := renames.name
  defaultState := renames.defaultState
  expandMethods := renames.expandMethods
  states := renames.states
  distinct := by
    intro other otherMem later laterMem
    rw [Pool.ids_erase, List.mem_filter] at otherMem laterMem
    exact renames.distinct other otherMem.1 later laterMem.1
  mem_ids := by
    intro copied
    simp only [Pool.ids_erase, List.mem_filter, renames.mem_ids, decide_eq_true_eq]
    constructor
    · rintro ⟨⟨other, otherMem, rfl⟩, different⟩
      refine ⟨other, ⟨otherMem, ?_⟩, rfl⟩
      rintro rfl
      exact different rfl
    · rintro ⟨other, ⟨otherMem, different⟩, rfl⟩
      refine ⟨⟨other, otherMem, rfl⟩, ?_⟩
      rwa [ne_eq, renames.place_inj otherMem pooled]
  nodes := by
    intro other node found
    simp only [Tree.get?, Pool.get?_erase] at found ⊢
    split at found
    · cases found
    · next different =>
        rw [if_neg]
        · exact renames.nodes other node found
        · rwa [renames.place_inj (Pool.mem_ids_of_get? found) pooled]

theorem insert (renames : tree.Renames place copy) (coherent : tree.Coherent)
    (copied : copy.Coherent) (next : place tree.nextId = copy.nextId) (node : Node) :
    (tree.insert node).Renames place (copy.insert (node.renamed place)) where
  name := renames.name
  defaultState := renames.defaultState
  expandMethods := renames.expandMethods
  states := renames.states
  distinct := by
    have fresh : ∀ id ∈ tree.pool.ids, place id ≠ place tree.nextId := by
      intro id pooled same
      have issued := (renames.mem_ids _).mpr ⟨id, pooled, same⟩
      rw [next, Pool.mem_ids_iff] at issued
      rcases issued with ⟨_, found⟩
      exact absurd (copied.get?_nextId.symm.trans found) nofun
    intro id pooled other otherPooled same
    rw [ids_insert, List.mem_append, List.mem_singleton] at pooled otherPooled
    rcases pooled with pooled | rfl
    · rcases otherPooled with otherPooled | rfl
      · exact renames.distinct id pooled other otherPooled same
      · exact absurd same (fresh id pooled)
    · rcases otherPooled with otherPooled | rfl
      · exact absurd same.symm (fresh other otherPooled)
      · rfl
  mem_ids := by
    intro other
    simp only [ids_insert, List.mem_append, List.mem_singleton, renames.mem_ids, or_and_right,
      exists_or, exists_eq_left, next, eq_comm]
  nodes := by
    intro id stored found
    apply (get?_insert_iff copied).mpr
    rcases (get?_insert_iff coherent).mp found with old | ⟨rfl, rfl⟩
    · exact .inl (renames.nodes id stored old)
    · exact .inr ⟨next, rfl⟩

/-! ## Trees behind edits -/

theorem insertState (renames : tree.Renames place copy) (coherent : tree.Coherent)
    (copied : copy.Coherent) (next : place tree.nextId = copy.nextId) (name : String) :
    (tree.insertState name).Renames place (copy.insertState name) := by
  refine { renames.insert coherent copied next (Node.state name) with states := ?_ }
  simp only [Tree.insertState, renames.states, List.map_append, List.map_singleton, next]

theorem withoutNode (renames : tree.Renames place copy) (coherent : tree.Coherent)
    (pooled : id ∈ tree.pool.ids) :
    (tree.withoutNode id).Renames place (copy.withoutNode (place id)) := by
  have detached : Renames place
      { tree with pool := tree.pool.mapNodes fun node => node.detachedFrom id }
      { copy with pool := copy.pool.mapNodes fun node => node.detachedFrom (place id) } := by
    apply renames.mapNodes
    intro other node found
    exact renames.detachedFrom coherent found pooled
  apply detached.erase
  rwa [Pool.ids_mapNodes]

/-- The first remaining state has the same name in both trees. -/
theorem withoutState (renames : tree.Renames place copy) (rooted : tree.Rooted)
    (state : id ∈ tree.states) (others : tree.states.length ≠ 1) (name : String) :
    (tree.withoutState id name).Renames place (copy.withoutState (place id) name) := by
  have pooled := rooted.orderly.pooled id state
  have rest : Renames place
      { tree with states := tree.states.erase id, pool := tree.pool.erase id }
      { copy with states := copy.states.erase (place id), pool := copy.pool.erase (place id) } :=
    { renames.erase pooled with states := renames.erase_states rooted pooled }
  have first := rest.firstStateName? (rooted.orderly.withoutState name state others).pooled
  simp only [renames.defaultState] at first
  refine { rest with defaultState := ?_ }
  simp only [Tree.withoutState, renames.defaultState, first]

theorem withName (renames : tree.Renames place copy) (rooted : tree.Rooted)
    (found : tree.get? id = some node) (name : String) :
    (tree.withName id node name).Renames place
      (copy.withName (place id) (node.renamed place) name) := by
  have pooled := Pool.mem_ids_of_get? found
  have modified : (tree.modify id fun node => { node with name }).Renames place
      (copy.modify (place id) fun node => { node with name }) :=
    renames.modify pooled fun _ _ => rfl
  refine { modified with defaultState := ?_ }
  simp only [Tree.withName, renames.mem_states_iff rooted pooled, renames.defaultState,
    Node.name_renamed]

theorem matchParameters (renames : tree.Renames place copy) (coherent : tree.Coherent) :
    tree.matchParameters.Renames place copy.matchParameters := by
  apply renames.mapEdges
  intro id node found edge member
  have pooled := child_pooled coherent found member
  simp only [Edge.renamed, renames.fitBindings pooled]

theorem withDefinitions (renames : tree.Renames place copy) (coherent : tree.Coherent)
    (pooled : id ∈ tree.pool.ids) (definitions : ParameterSet) :
    (tree.withDefinitions id definitions).Renames place
      (copy.withDefinitions (place id) definitions) := by
  have modified : (tree.modify id fun node => node.withParameters definitions).Renames place
      (copy.modify (place id) fun node => node.withParameters definitions) :=
    renames.modify pooled fun _ _ => rfl
  have modifiedCoherent := (restyles_withParameters tree id definitions).coherent coherent
  have stillPooled : id ∈ (tree.modify id fun node => node.withParameters definitions).pool.ids := by
    rwa [Tree.modify, Pool.ids_modify]
  apply modified.mapEdges
  intro other node found edge member
  have childPooled := child_pooled modifiedCoherent found member
  simp only [Edge.renamed, modified.place_inj childPooled stillPooled,
    modified.fitBindings stillPooled]
  split <;> rfl

end Renames

end Tree

end BehaviorTree
