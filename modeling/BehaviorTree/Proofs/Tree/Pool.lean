import BehaviorTree.Tree.Builder
import Mathlib.Data.List.Nodup

/-!
# What a pool answers

Every change of a pool is described by the node that it answers for an identity afterwards.  The
proofs about trees go through `get?` and never look at the list behind it.
-/

namespace BehaviorTree

/-- A node with other edges. -/
def Node.withEdges (node : Node) (edges : List Edge) : Node :=
  { node with edges }

namespace Pool

variable {pool : Pool} {id other : NodeId} {node : Node} {change : Node → Node}

@[simp]
theorem get?_nil : Pool.get? [] id = none :=
  rfl

theorem get?_cons (entry : NodeId × Node) (pool : Pool) (id : NodeId) :
    Pool.get? (entry :: pool) id = if id = entry.1 then some entry.2 else pool.get? id := by
  rcases entry with ⟨other, node⟩
  simp only [get?, List.lookup_cons]
  by_cases same : id = other
  · simp [same]
  · simp [same, beq_eq_false_iff_ne.mpr same]

@[simp]
theorem ids_cons (entry : NodeId × Node) (pool : Pool) :
    Pool.ids (entry :: pool) = entry.1 :: pool.ids :=
  rfl

/-! ## Changes in place -/

@[simp]
theorem get?_mapNodes (pool : Pool) (change : Node → Node) (id : NodeId) :
    (pool.mapNodes change).get? id = (pool.get? id).map change := by
  induction pool with
  | nil => rfl
  | cons entry pool ih =>
      simp only [mapNodes, List.map_cons, get?_cons] at ih ⊢
      split
      · rfl
      · exact ih

@[simp]
theorem ids_mapNodes (pool : Pool) (change : Node → Node) :
    (pool.mapNodes change).ids = pool.ids := by
  simp [ids, mapNodes]

@[simp]
theorem get?_modify (pool : Pool) (id other : NodeId) (change : Node → Node) :
    (pool.modify id change).get? other =
      (pool.get? other).map fun node => if other = id then change node else node := by
  induction pool with
  | nil => rfl
  | cons entry pool ih =>
      simp only [modify, List.map_cons, get?_cons] at ih ⊢
      split
      · next same => simp [same]
      · exact ih

@[simp]
theorem ids_modify (pool : Pool) (id : NodeId) (change : Node → Node) :
    (pool.modify id change).ids = pool.ids := by
  simp [ids, modify]

@[simp]
theorem get?_mapEdges (pool : Pool) (change : Edge → Edge) (id : NodeId) :
    (pool.mapEdges change).get? id =
      (pool.get? id).map fun node => { node with edges := node.edges.map change } :=
  get?_mapNodes pool _ id

@[simp]
theorem ids_mapEdges (pool : Pool) (change : Edge → Edge) :
    (pool.mapEdges change).ids = pool.ids :=
  ids_mapNodes pool _

/-! ## Longer and shorter pools -/

theorem get?_append (front back : Pool) (id : NodeId) :
    Pool.get? (front ++ back) id = (front.get? id).or (back.get? id) := by
  induction front with
  | nil => rfl
  | cons entry front ih =>
      simp only [List.cons_append, get?_cons]
      split
      · rfl
      · exact ih

@[simp]
theorem get?_erase (pool : Pool) (id other : NodeId) :
    (pool.erase id).get? other = if other = id then none else pool.get? other := by
  induction pool with
  | nil => simp [erase]
  | cons entry pool ih =>
      rcases entry with ⟨first, node⟩
      simp only [erase, List.filter_cons, get?_cons] at ih ⊢
      by_cases erased : first = id
      · subst first
        simp only [ne_eq, not_true_eq_false, decide_false, Bool.false_eq_true, ↓reduceIte, ih]
        split <;> simp_all
      · simp only [ne_eq, erased, not_false_eq_true, decide_true, ↓reduceIte, get?_cons, ih]
        split <;> simp_all

@[simp]
theorem ids_erase (pool : Pool) (id : NodeId) :
    (pool.erase id).ids = pool.ids.filter (· ≠ id) := by
  simp [ids, erase, List.filter_map, Function.comp_def]

/-! ## Membership -/

theorem mem_of_get? (found : pool.get? id = some node) : (id, node) ∈ pool := by
  induction pool with
  | nil => simp at found
  | cons entry pool ih =>
      rw [get?_cons] at found
      split at found
      · next same =>
          simp only [Option.some.injEq] at found
          subst same found
          exact List.mem_cons_self
      · exact List.mem_cons_of_mem _ (ih found)

theorem get?_of_mem (distinct : pool.ids.Nodup) (member : (id, node) ∈ pool) :
    pool.get? id = some node := by
  induction pool with
  | nil => simp at member
  | cons entry pool ih =>
      simp only [ids_cons, List.nodup_cons] at distinct
      rw [get?_cons]
      rcases List.mem_cons.mp member with rfl | later
      · simp
      · have other : id ≠ entry.1 := by
          rintro rfl
          exact distinct.1 (List.mem_map.mpr ⟨_, later, rfl⟩)
        rw [if_neg other]
        exact ih distinct.2 later

theorem mem_ids_iff : id ∈ pool.ids ↔ ∃ node, pool.get? id = some node := by
  constructor
  · intro member
    induction pool with
    | nil => simp [ids] at member
    | cons entry pool ih =>
        rw [ids_cons, List.mem_cons] at member
        rw [get?_cons]
        by_cases same : id = entry.1
        · exact ⟨entry.2, by simp [same]⟩
        · rw [if_neg same]
          exact ih (member.resolve_left same)
  · rintro ⟨node, found⟩
    exact List.mem_map_of_mem (mem_of_get? found)

theorem mem_ids_of_get? (found : pool.get? id = some node) : id ∈ pool.ids :=
  mem_ids_iff.mpr ⟨node, found⟩

theorem get?_eq_none_iff : pool.get? id = none ↔ id ∉ pool.ids := by
  rw [mem_ids_iff]
  cases pool.get? id <;> simp

/-- Pools of the same identities are equal if they answer the same nodes. -/
theorem ext_get? {first second : Pool} (distinct : first.ids.Nodup) (ids : second.ids = first.ids)
    (nodes : ∀ id, second.get? id = first.get? id) : second = first := by
  induction first generalizing second with
  | nil => exact List.map_eq_nil_iff.mp ids
  | cons entry first ih =>
      rcases second with _ | ⟨otherEntry, second⟩
      · cases ids
      rw [ids_cons, ids_cons, List.cons.injEq] at ids
      rw [ids_cons, List.nodup_cons] at distinct
      rcases ids with ⟨sameId, ids⟩
      have head := nodes entry.1
      rw [get?_cons, get?_cons, if_pos sameId.symm, if_pos rfl, Option.some.injEq] at head
      rw [Prod.ext sameId head, ih distinct.2 ids]
      intro id
      have same := nodes id
      rw [get?_cons, get?_cons, sameId] at same
      by_cases here : id = entry.1
      · rw [here, get?_eq_none_iff.mpr distinct.1, get?_eq_none_iff.mpr (ids ▸ distinct.1)]
      · rwa [if_neg here, if_neg here] at same

theorem modify_of_not_mem (absent : id ∉ pool.ids) :
    pool.modify id change = pool := by
  have unchanged : ∀ entry ∈ pool,
      (entry.1, if entry.1 = id then change entry.2 else entry.2) = entry := by
    intro entry member
    rw [if_neg]
    rintro rfl
    exact absent (List.mem_map_of_mem member)
  exact (List.map_congr_left unchanged).trans (List.map_id pool)

/-- The change of one node leaves the nodes around it alone. -/
theorem modify_middle {front back : Pool} (distinct : (front ++ (id, node) :: back).ids.Nodup) :
    Pool.modify (front ++ (id, node) :: back) id change = front ++ (id, change node) :: back := by
  have apart : id ∉ front.ids ∧ id ∉ back.ids := by
    rw [ids, List.map_append, List.map_cons, List.nodup_middle, List.nodup_cons,
      List.mem_append, not_or] at distinct
    exact distinct.1
  have frontSame : front.modify id change = front := modify_of_not_mem apart.1
  have backSame : back.modify id change = back := modify_of_not_mem apart.2
  rw [modify] at frontSame backSame ⊢
  rw [List.map_append, List.map_cons, frontSame, backSame]
  simp only [↓reduceIte]

/-! ## Edges taken off -/

/-- The nodes of a pool without their edges. -/
def bare (pool : Pool) : Pool :=
  pool.mapNodes fun node => node.withEdges []

theorem bare_cons (entry : NodeId × Node) (pool : Pool) :
    Pool.bare (entry :: pool) = (entry.1, entry.2.withEdges []) :: pool.bare :=
  rfl

theorem bare_append (front back : Pool) : Pool.bare (front ++ back) = front.bare ++ back.bare :=
  List.map_append

end Pool

/-! ## Trees -/

namespace Tree

variable {tree : Tree} {id : NodeId} {node : Node}

theorem get?_insert (tree : Tree) (node : Node) (id : NodeId) :
    (tree.insert node).get? id =
      (tree.get? id).or (if id = tree.nextId then some node else none) := by
  simp only [insert, get?, Pool.get?_append, Pool.get?_cons, Pool.get?_nil]

theorem get?_modify (tree : Tree) (id other : NodeId) (change : Node → Node) :
    (tree.modify id change).get? other =
      (tree.get? other).map fun node => if other = id then change node else node :=
  tree.pool.get?_modify id other change

/-- A change in the pool is undone once the pool answers as before. -/
theorem eq_of_get? {after : Tree} (distinct : tree.pool.ids.Nodup)
    (rest : after = { tree with pool := after.pool }) (ids : after.pool.ids = tree.pool.ids)
    (nodes : ∀ id, after.get? id = tree.get? id) : after = tree := by
  rw [rest, Pool.ext_get? distinct ids nodes]

theorem exists_get? (pooled : id ∈ tree.pool.ids) : ∃ node, tree.get? id = some node :=
  Pool.mem_ids_iff.mp pooled

theorem hasState_iff {name : String} :
    tree.hasState name ↔
      ∃ id ∈ tree.states, ∃ node, tree.get? id = some node ∧ node.name = name := by
  simp only [hasState, state?, List.find?_isSome, Option.any_eq_true, decide_eq_true_eq]

theorem state?_eq_some {name : String} (found : tree.state? name = some id) :
    id ∈ tree.states ∧ ∃ node, tree.get? id = some node ∧ node.name = name := by
  have named := List.find?_some found
  simp only [Option.any_eq_true, decide_eq_true_eq] at named
  exact ⟨List.mem_of_find?_eq_some found, named⟩

end Tree

end BehaviorTree
