import BehaviorTree.Proofs.Tree.Reachability

/-!
# Collecting

Collecting goes from a root into its children, one after the other, and takes along what it has
visited; a child that has been visited below an earlier one is passed over.  Here this recursion is
described by its derivations, for any graph and any start, and what comes out of it is compared with
the paths that lead past everything visited before.
-/

namespace BehaviorTree.Tree

open Relation

variable {tree : Tree} {root id : NodeId} {roots visited collected : List NodeId}

/-! ## The recursion -/

/-- Collecting from one root after the other: what has been visited and what has been collected,
before it and after it. -/
inductive Collects (tree : Tree) :
    List NodeId → List NodeId × List NodeId → List NodeId × List NodeId → Prop where
  | done {state : List NodeId × List NodeId} : Collects tree [] state state
  | seen {root : NodeId} {roots visited collected : List NodeId}
      {result : List NodeId × List NodeId} (seen : root ∈ visited)
      (rest : Collects tree roots (visited, collected) result) :
      Collects tree (root :: roots) (visited, collected) result
  | missing {root : NodeId} {roots visited collected : List NodeId}
      {result : List NodeId × List NodeId} (fresh : root ∉ visited)
      (missing : tree.get? root = none)
      (rest : Collects tree roots (root :: visited, collected) result) :
      Collects tree (root :: roots) (visited, collected) result
  | node {root : NodeId} {node : Node} {roots visited collected : List NodeId}
      {between result : List NodeId × List NodeId} (fresh : root ∉ visited)
      (found : tree.get? root = some node)
      (children : Collects tree node.children (root :: visited, collected ++ [root]) between)
      (rest : Collects tree roots between result) :
      Collects tree (root :: roots) (visited, collected) result

namespace Collects

variable {front back : List NodeId} {start result other : List NodeId × List NodeId}

/-- Collecting from many roots comes by way of what the first of them lead to. -/
theorem split (collects : tree.Collects (front ++ back) start result) :
    ∃ between, tree.Collects front start between ∧ tree.Collects back between result := by
  generalize joined : front ++ back = roots at collects
  induction collects generalizing front with
  | done =>
      simp only [List.append_eq_nil_iff] at joined
      rcases joined with ⟨rfl, rfl⟩
      exact ⟨_, .done, .done⟩
  | seen seen rest ih =>
      rcases List.append_eq_cons_iff.mp joined with ⟨rfl, rfl⟩ | ⟨front, rfl, rfl⟩
      · exact ⟨_, .done, .seen seen rest⟩
      · rcases ih rfl with ⟨between, first, second⟩
        exact ⟨between, .seen seen first, second⟩
  | missing fresh missing rest ih =>
      rcases List.append_eq_cons_iff.mp joined with ⟨rfl, rfl⟩ | ⟨front, rfl, rfl⟩
      · exact ⟨_, .done, .missing fresh missing rest⟩
      · rcases ih rfl with ⟨between, first, second⟩
        exact ⟨between, .missing fresh missing first, second⟩
  | node fresh found children rest _ ih =>
      rcases List.append_eq_cons_iff.mp joined with ⟨rfl, rfl⟩ | ⟨front, rfl, rfl⟩
      · exact ⟨_, .done, .node fresh found children rest⟩
      · rcases ih rfl with ⟨between, first, second⟩
        exact ⟨between, .node fresh found children first, second⟩

/-- There is one outcome. -/
theorem unique (collects : tree.Collects roots start result)
    (again : tree.Collects roots start other) : other = result := by
  induction collects generalizing other with
  | done =>
      cases again
      rfl
  | seen seen rest ih =>
      cases again with
      | seen _ rest => exact ih rest
      | missing fresh => exact absurd seen fresh
      | node fresh => exact absurd seen fresh
  | missing fresh missing rest ih =>
      cases again with
      | seen seen => exact absurd seen fresh
      | missing _ _ rest => exact ih rest
      | node _ found => simp [missing] at found
  | node fresh found children rest ihChildren ihRest =>
      cases again with
      | seen seen => exact absurd seen fresh
      | missing _ missing => simp [missing] at found
      | node _ again children rest =>
          simp only [found, Option.some.injEq] at again
          subst again
          rw [ihChildren children] at rest
          exact ihRest rest

end Collects

/-- The recursion ends, with what the walk visits and meets. -/
theorem collects_walk (tree : Tree) (roots visited collected : List NodeId) :
    tree.Collects roots (visited, collected)
      ((tree.walk roots visited).1, collected ++ (tree.walk roots visited).2) := by
  fun_induction Tree.walk tree roots visited generalizing collected with
  | case1 => simpa using .done
  | case2 visited first roots seen ih => exact .seen seen (ih collected)
  | case3 visited first roots fresh missing ih => exact .missing fresh missing (ih collected)
  | case4 visited first roots fresh node found after met walked ih =>
      have below := ih (collected ++ [first])
      simp only [walked, List.append_assoc, List.singleton_append] at below
      rcases below.split with ⟨between, children, rest⟩
      exact .node fresh found children rest

/-! ## Paths past what has been visited -/

/-- A path leads to a node, and it comes past nothing that has been visited, from its start on.  Only
at its end may be a node that is not pooled. -/
def LeadsPast (tree : Tree) (visited : List NodeId) (start id : NodeId) : Prop :=
  start ∉ visited ∧
    ReflTransGen (fun parent child => tree.IsChild parent child ∧ child ∉ visited) start id

theorem LeadsPast.not_mem (leads : tree.LeadsPast visited root id) : id ∉ visited := by
  rcases leads with ⟨fresh, path⟩
  rcases path.cases_tail with rfl | ⟨_, _, step⟩
  · exact fresh
  · exact step.2

theorem leadsPast_iff :
    tree.LeadsPast visited root id ↔
      id ∉ visited ∧ ReflTransGen (tree.FreshStep visited) root id := by
  constructor
  · intro leads
    refine ⟨leads.not_mem, ?_⟩
    rcases leads with ⟨fresh, path⟩
    induction path using ReflTransGen.head_induction_on with
    | refl => exact .refl
    | head step _ ih => exact (ih step.2).head ⟨fresh, step.1⟩
  · rintro ⟨unseen, path⟩
    induction path using ReflTransGen.head_induction_on with
    | refl => exact ⟨unseen, .refl⟩
    | head step _ ih => exact ⟨step.1, ih.2.head ⟨step.2, ih.1⟩⟩

/-- What a walk from one root visits in addition. -/
theorem mem_visited_walk_iff_leadsPast :
    id ∈ (tree.walk [root] visited).1 ↔ id ∈ visited ∨ tree.LeadsPast visited root id := by
  rw [mem_visited_walk_iff, leadsPast_iff]
  by_cases seen : id ∈ visited <;> simp [seen]

theorem mem_met_walk_iff_leadsPast :
    id ∈ (tree.walk [root] visited).2 ↔
      tree.LeadsPast visited root id ∧ ∃ node, tree.get? id = some node := by
  rw [mem_met_walk_iff, mem_visited_walk_iff_leadsPast]
  constructor
  · rintro ⟨unseen, seen | leads, pooled⟩
    · exact absurd seen unseen
    · exact ⟨leads, pooled⟩
  · exact fun ⟨leads, pooled⟩ => ⟨leads.not_mem, .inr leads, pooled⟩

/-! ## The order -/

/-- Whatever a walk meets stands on its stack, or it has met a parent of it before. -/
theorem mem_or_exists_parent (tree : Tree) (stack visited : List NodeId)
    {before later : List NodeId}
    (met : (tree.walk stack visited).2 = before ++ id :: later) :
    id ∈ stack ∨ ∃ parent ∈ before, tree.IsChild parent id := by
  fun_induction Tree.walk tree stack visited generalizing before with
  | case1 => simp at met
  | case2 visited first stack seen ih => exact (ih met).imp_left (List.mem_cons_of_mem _)
  | case3 visited first stack fresh missing ih => exact (ih met).imp_left (List.mem_cons_of_mem _)
  | case4 visited first stack fresh node found after rest walked ih =>
      rcases List.cons_eq_append_iff.mp met with ⟨rfl, same⟩ | ⟨before, rfl, below⟩
      · rw [List.cons.injEq] at same
        exact .inl (same.1 ▸ List.mem_cons_self)
      · rw [walked] at ih
        rcases ih below with onStack | ⟨parent, earlier, step⟩
        · rcases List.mem_append.mp onStack with child | waiting
          · exact .inr ⟨first, List.mem_cons_self, node, found, child⟩
          · exact .inl (List.mem_cons_of_mem _ waiting)
        · exact .inr ⟨parent, List.mem_cons_of_mem _ earlier, step⟩

theorem head?_met_walk (nonempty : (tree.walk [root] visited).2 ≠ []) :
    (tree.walk [root] visited).2.head? = some root := by
  rcases met : (tree.walk [root] visited).2 with _ | ⟨first, rest⟩
  · exact absurd met nonempty
  · have split : (tree.walk [root] visited).2 = [] ++ first :: rest := met
    rcases mem_or_exists_parent tree [root] visited split with only | ⟨_, none, _⟩
    · simpa using only
    · simp at none

/-! ## Collecting from one root -/

/-- What collecting from a root comes to. -/
structure CollectedExactly (tree : Tree) (root : NodeId) (visited collected : List NodeId)
    (result : List NodeId × List NodeId) : Prop where
  ends : tree.Collects [root] (visited, collected) result
  only : ∀ other, tree.Collects [root] (visited, collected) other → other = result
  visits : ∀ id, id ∈ result.1 ↔ id ∈ visited ∨ tree.LeadsPast visited root id
  /-- What is appended to the list: each node once, the root first, and every other node after a
  parent of it. -/
  appends : ∃ met, result.2 = collected ++ met ∧ met.Nodup ∧
    (∀ id, id ∈ met ↔ tree.LeadsPast visited root id ∧ id ∈ tree.pool.ids) ∧
    (met ≠ [] → met.head? = some root) ∧
    ∀ before id later, met = before ++ id :: later → id ≠ root →
      ∃ parent ∈ before, tree.IsChild parent id

/-- Collecting is exact in every graph, whatever has been visited and collected before. -/
theorem collect_exact (tree : Tree) (root : NodeId) (visited collected : List NodeId) :
    tree.CollectedExactly root visited collected (tree.collect root visited collected) where
  ends := tree.collects_walk [root] visited collected
  only := fun _ again => (tree.collects_walk [root] visited collected).unique again
  visits := fun _ => mem_visited_walk_iff_leadsPast
  appends := by
    refine ⟨(tree.walk [root] visited).2, rfl, nodup_met_walk tree [root] visited, ?_,
      head?_met_walk, ?_⟩
    · intro id
      rw [mem_met_walk_iff_leadsPast, Pool.mem_ids_iff]
      rfl
    · intro before id later met other
      rcases mem_or_exists_parent tree [root] visited met with only | parent
      · exact absurd (List.mem_singleton.mp only) other
      · exact parent

end BehaviorTree.Tree
