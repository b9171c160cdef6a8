import BehaviorTree.Proofs.Tree.Pool
import Mathlib.Logic.Relation

/-!
# Walks and paths

The walk and the search of the hierarchy keep a list of visited identities.  Here both are compared
with paths: a path may leave a node only if it is pooled, and an unfinished walk goes on along the
paths that leave no visited node.  Nothing is assumed of the tree; its edges may close cycles or lead
out of the pool.
-/

namespace BehaviorTree.Tree

open Relation

/-- An edge leads from a pooled node to `child`. -/
def IsChild (tree : Tree) (parent child : NodeId) : Prop :=
  ∃ node, tree.get? parent = some node ∧ child ∈ node.children

/-- An edge that leaves a node which has not been visited. -/
def FreshStep (tree : Tree) (visited : List NodeId) (parent child : NodeId) : Prop :=
  parent ∉ visited ∧ tree.IsChild parent child

/-- A path leads from a state to the identity. -/
def IsReached (tree : Tree) (id : NodeId) : Prop :=
  ∃ state ∈ tree.states, ReflTransGen tree.IsChild state id

variable {tree : Tree} {visited : List NodeId}

theorem not_isChild_of_get?_eq_none {parent child : NodeId} (missing : tree.get? parent = none) :
    ¬tree.IsChild parent child := by
  rintro ⟨node, found, _⟩
  simp [missing] at found

theorem isChild_iff {parent child : NodeId} {node : Node} (found : tree.get? parent = some node) :
    tree.IsChild parent child ↔ child ∈ node.children := by
  constructor
  · rintro ⟨other, foundOther, childMem⟩
    rw [found, Option.some.injEq] at foundOther
    exact foundOther ▸ childMem
  · exact fun childMem => ⟨node, found, childMem⟩

theorem IsChild.parent_mem_ids {parent child : NodeId} (step : tree.IsChild parent child) :
    parent ∈ tree.pool.ids := by
  rcases step with ⟨node, found, _⟩
  exact Pool.mem_ids_of_get? found

/-! ## Paths past visited nodes -/

theorem path_of_freshPath {start target : NodeId}
    (path : ReflTransGen (tree.FreshStep visited) start target) :
    ReflTransGen tree.IsChild start target :=
  ReflTransGen.mono (fun _ _ step => step.2) _ _ path

theorem freshPath_nil_iff {start target : NodeId} :
    ReflTransGen (tree.FreshStep []) start target ↔ ReflTransGen tree.IsChild start target := by
  have same : tree.FreshStep [] = tree.IsChild := by
    funext parent child
    simp [FreshStep]
  rw [same]

theorem freshPath_of_cons {start target id : NodeId}
    (path : ReflTransGen (tree.FreshStep (id :: visited)) start target) :
    ReflTransGen (tree.FreshStep visited) start target :=
  ReflTransGen.mono
    (fun _ _ step => ⟨fun member => step.1 (List.mem_cons_of_mem _ member), step.2⟩) _ _ path

/-- A path from a visited node ends where it starts. -/
theorem eq_of_freshPath {start target : NodeId} (seen : start ∈ visited)
    (path : ReflTransGen (tree.FreshStep visited) start target) : start = target := by
  rcases path.cases_head with same | ⟨next, step, _⟩
  · exact same
  · exact absurd seen step.1

/-- After its last visit to a node, a path avoids that node. -/
theorem freshPath_avoid {start target : NodeId} (id : NodeId)
    (path : ReflTransGen (tree.FreshStep visited) start target) :
    ReflTransGen (tree.FreshStep (id :: visited)) start target ∨
      ∃ child, tree.IsChild id child ∧
        ReflTransGen (tree.FreshStep (id :: visited)) child target := by
  induction path using ReflTransGen.head_induction_on with
  | refl => exact .inl .refl
  | @head start next step _ ih =>
      rcases ih with avoiding | later
      · by_cases same : start = id
        · subst same
          exact .inr ⟨next, step.2, avoiding⟩
        · left
          refine avoiding.head ⟨?_, step.2⟩
          simp [same, step.1]
      · exact .inr later

/-- Where a path to another node goes on from the front of a stack. -/
theorem freshPath_cons_iff {id target : NodeId} {node : Node} {stack : List NodeId}
    (fresh : id ∉ visited) (found : tree.get? id = some node) (other : id ≠ target) :
    (∃ start ∈ node.children ++ stack,
        ReflTransGen (tree.FreshStep (id :: visited)) start target) ↔
      ∃ start ∈ id :: stack, ReflTransGen (tree.FreshStep visited) start target := by
  constructor
  · rintro ⟨start, startMem, path⟩
    rcases List.mem_append.mp startMem with childMem | later
    · exact ⟨id, List.mem_cons_self,
        (freshPath_of_cons path).head ⟨fresh, node, found, childMem⟩⟩
    · exact ⟨start, List.mem_cons_of_mem _ later, freshPath_of_cons path⟩
  · rintro ⟨start, startMem, path⟩
    rcases freshPath_avoid id path with avoiding | ⟨child, childOf, avoiding⟩
    · rcases List.mem_cons.mp startMem with rfl | later
      · exact absurd (eq_of_freshPath List.mem_cons_self avoiding) other
      · exact ⟨start, List.mem_append_right _ later, avoiding⟩
    · exact ⟨child, List.mem_append_left _ ((isChild_iff found).mp childOf), avoiding⟩

/-- A node that has no place in the pool leads nowhere, so no path misses it. -/
theorem freshPath_cons_of_get?_eq_none {id start target : NodeId} (missing : tree.get? id = none) :
    ReflTransGen (tree.FreshStep (id :: visited)) start target ↔
      ReflTransGen (tree.FreshStep visited) start target := by
  constructor
  · exact freshPath_of_cons
  · intro path
    rcases freshPath_avoid id path with avoiding | ⟨child, childOf, _⟩
    · exact avoiding
    · exact absurd childOf (not_isChild_of_get?_eq_none missing)

/-- No path to another node goes on from a visited node at the front of a stack. -/
theorem freshPath_cons_iff_of_mem {id target : NodeId} {stack : List NodeId} (seen : id ∈ visited)
    (other : id ≠ target) :
    (∃ start ∈ stack, ReflTransGen (tree.FreshStep visited) start target) ↔
      ∃ start ∈ id :: stack, ReflTransGen (tree.FreshStep visited) start target := by
  rw [List.exists_mem_cons_iff]
  exact (or_iff_right fun path => other (eq_of_freshPath seen path)).symm

/-- No path to another node goes on from a missing node at the front of a stack. -/
theorem freshPath_cons_iff_of_get?_eq_none {id target : NodeId} {stack : List NodeId}
    (missing : tree.get? id = none) (other : id ≠ target) :
    (∃ start ∈ stack, ReflTransGen (tree.FreshStep (id :: visited)) start target) ↔
      ∃ start ∈ id :: stack, ReflTransGen (tree.FreshStep visited) start target := by
  simp only [freshPath_cons_of_get?_eq_none missing, List.exists_mem_cons_iff]
  refine (or_iff_right fun path => ?_).symm
  rcases path.cases_head with same | ⟨next, step, _⟩
  · exact other same
  · exact not_isChild_of_get?_eq_none missing step.2

/-! ## The search -/

theorem search_iff (tree : Tree) (target : NodeId) (stack visited : List NodeId) :
    tree.search target stack visited = true ↔
      ∃ start ∈ stack, ReflTransGen (tree.FreshStep visited) start target := by
  fun_induction Tree.search tree target stack visited with
  | case1 => simp
  | case2 visited stack => simpa using .inl .refl
  | case3 visited id stack other seen ih =>
      rw [ih]
      exact freshPath_cons_iff_of_mem seen other
  | case4 visited id stack other fresh missing ih =>
      rw [ih]
      exact freshPath_cons_iff_of_get?_eq_none missing other
  | case5 visited id stack other fresh node found ih =>
      rw [ih]
      exact freshPath_cons_iff fresh found other

/-- The search of strict descendants is exact: it succeeds if and only if a path of at least one
edge leads to the target. -/
theorem reaches_iff (tree : Tree) (start target : NodeId) :
    tree.reaches start target = true ↔ TransGen tree.IsChild start target := by
  rw [TransGen.head'_iff]
  simp only [reaches]
  split
  · next node found =>
      simp only [search_iff, freshPath_nil_iff, isChild_iff found]
  · next missing =>
      simp [not_isChild_of_get?_eq_none missing]

theorem isInHierarchy_iff (tree : Tree) (id : NodeId) :
    tree.isInHierarchy id = true ↔ tree.IsReached id := by
  simp only [isInHierarchy, IsReached, List.any_eq_true, Bool.or_eq_true, decide_eq_true_eq,
    reaches_iff]
  refine exists_congr fun state => and_congr_right fun _ => ?_
  rw [reflTransGen_iff_eq_or_transGen, eq_comm]

/-! ## The walk -/

/-- A walk visits what its stack leads to along nodes that had not been visited before. -/
theorem mem_visited_walk_iff (tree : Tree) (stack visited : List NodeId) (id : NodeId) :
    id ∈ (tree.walk stack visited).1 ↔
      id ∈ visited ∨ ∃ start ∈ stack, ReflTransGen (tree.FreshStep visited) start id := by
  fun_induction Tree.walk tree stack visited with
  | case1 => simp
  | case2 visited first stack seen ih =>
      rw [ih]
      exact or_congr_right' fun unseen =>
        freshPath_cons_iff_of_mem seen (ne_of_mem_of_not_mem seen unseen)
  | case3 visited first stack fresh missing ih =>
      rw [ih, List.mem_cons, or_assoc]
      by_cases same : id = first
      · subst same
        simp [ReflTransGen.refl]
      · rw [or_iff_right same]
        exact or_congr_right (freshPath_cons_iff_of_get?_eq_none missing (Ne.symm same))
  | case4 visited first stack fresh node found after met walked ih =>
      rw [walked] at ih
      rw [ih, List.mem_cons, or_assoc]
      by_cases same : id = first
      · subst same
        simp [ReflTransGen.refl]
      · rw [or_iff_right same]
        exact or_congr_right (freshPath_cons_iff fresh found (Ne.symm same))

/-- What a walk meets is what it visits for the first time, as far as it is pooled. -/
theorem mem_met_walk_iff (tree : Tree) (stack visited : List NodeId) (id : NodeId) :
    id ∈ (tree.walk stack visited).2 ↔
      id ∉ visited ∧ id ∈ (tree.walk stack visited).1 ∧ ∃ node, tree.get? id = some node := by
  fun_induction Tree.walk tree stack visited with
  | case1 => simp +contextual
  | case2 visited first stack seen ih => exact ih
  | case3 visited first stack fresh missing ih =>
      rw [ih, List.mem_cons, not_or]
      by_cases same : id = first
      · subst same
        simp [missing]
      · simp [same]
  | case4 visited first stack fresh node found after met walked ih =>
      have visitedFirst : first ∈ after := by
        have visitedAfter :=
          (mem_visited_walk_iff tree (node.children ++ stack) (first :: visited) first).mpr
            (.inl List.mem_cons_self)
        rwa [walked] at visitedAfter
      rw [walked] at ih
      simp only [List.mem_cons, ih, not_or]
      by_cases same : id = first
      · subst same
        simp [fresh, visitedFirst, found]
      · simp [same]

theorem nodup_met_walk (tree : Tree) (stack visited : List NodeId) :
    (tree.walk stack visited).2.Nodup := by
  fun_induction Tree.walk tree stack visited with
  | case1 => exact List.nodup_nil
  | case2 visited first stack seen ih => exact ih
  | case3 visited first stack fresh missing ih => exact ih
  | case4 visited first stack fresh node found after met walked ih =>
      have metFresh := (mem_met_walk_iff tree (node.children ++ stack) (first :: visited) first).mp
      rw [walked] at ih metFresh
      exact List.nodup_cons.mpr ⟨fun again => (metFresh again).1 List.mem_cons_self, ih⟩

/-- A walk of a long stack is the walk of its front followed by the walk of the rest. -/
theorem walk_append (tree : Tree) (front back visited : List NodeId) :
    tree.walk (front ++ back) visited =
      let (seen, met) := tree.walk front visited
      let (after, later) := tree.walk back seen
      (after, met ++ later) := by
  fun_induction Tree.walk tree front visited with
  | case1 => rfl
  | case2 visited first stack seen ih =>
      rw [List.cons_append, Tree.walk, dif_pos seen, ih]
  | case3 visited first stack fresh missing ih =>
      rw [List.cons_append, Tree.walk, dif_neg fresh]
      split
      · exact ih
      · next node found => simp [missing] at found
  | case4 visited first stack fresh node found after met walked ih =>
      rw [List.cons_append, Tree.walk, dif_neg fresh]
      split
      · next missing => simp [found] at missing
      · next other foundOther =>
          rw [found, Option.some.injEq] at foundOther
          subst other
          rw [← List.append_assoc, ih, walked]
          rfl

/-! ## The hierarchy -/

/-- Collecting from one state after the other is a single walk. -/
theorem foldl_collect (tree : Tree) (states visited collected : List NodeId) :
    states.foldl (fun (visited, collected) state => tree.collect state visited collected)
        (visited, collected) =
      let (after, met) := tree.walk states visited
      (after, collected ++ met) := by
  induction states generalizing visited collected with
  | nil => simp [Tree.walk]
  | cons state states ih =>
      rw [List.foldl_cons, ← List.singleton_append, walk_append]
      exact (ih _ _).trans (by simp [List.append_assoc])

theorem hierarchy_eq_walk (tree : Tree) : tree.hierarchy = (tree.walk tree.states []).2 := by
  simp [hierarchy, foldl_collect]

theorem mem_hierarchy_iff {tree : Tree} {id : NodeId} :
    id ∈ tree.hierarchy ↔ tree.IsReached id ∧ ∃ node, tree.get? id = some node := by
  rw [hierarchy_eq_walk, mem_met_walk_iff, mem_visited_walk_iff]
  simp [freshPath_nil_iff, IsReached]

theorem nodup_hierarchy (tree : Tree) : tree.hierarchy.Nodup := by
  rw [hierarchy_eq_walk]
  exact nodup_met_walk tree tree.states []

end BehaviorTree.Tree
