import BehaviorTree.Proofs.Tree.Reachability
import Mathlib.Data.List.Cycle
import Mathlib.Data.Multiset.AddSub

/-!
# Searching

A search looks at one waiting node after the other and lets the children of each pooled node wait
that it has not visited.  Here it is a step relation that leaves open which of the waiting nodes
comes next.  A step uses up what bounds the search, and it keeps whether a path leads from what is
waiting to the target; so every search ends, in whatever order it goes, and there is one answer.

What this answer says of the graph is put in terms of paths and cycles, which are given by their
nodes.  As for the walk, nothing is assumed of the graph.
-/

namespace BehaviorTree.Tree

open Relation

variable {tree : Tree} {start target : NodeId}

/-! ## The steps of a search -/

/-- What a search has still to look at, and what it has visited. -/
structure SearchState where
  waiting : Multiset NodeId
  visited : List NodeId

/-- The search looks at a waiting node that is not its target. -/
inductive SearchStep (tree : Tree) (target : NodeId) : SearchState → SearchState → Prop where
  | seen {id : NodeId} {waiting : Multiset NodeId} {visited : List NodeId}
      (other : id ≠ target) (seen : id ∈ visited) :
      SearchStep tree target ⟨id ::ₘ waiting, visited⟩ ⟨waiting, visited⟩
  | missing {id : NodeId} {waiting : Multiset NodeId} {visited : List NodeId}
      (other : id ≠ target) (fresh : id ∉ visited) (missing : tree.get? id = none) :
      SearchStep tree target ⟨id ::ₘ waiting, visited⟩ ⟨waiting, id :: visited⟩
  | node {id : NodeId} {node : Node} {waiting : Multiset NodeId} {visited : List NodeId}
      (other : id ≠ target) (fresh : id ∉ visited) (found : tree.get? id = some node) :
      SearchStep tree target ⟨id ::ₘ waiting, visited⟩ ⟨node.children + waiting, id :: visited⟩

/-- A search succeeds when it looks at its target, and it fails when nothing is waiting. -/
inductive SearchState.Answers (target : NodeId) : SearchState → Bool → Prop where
  | found {waiting : Multiset NodeId} {visited : List NodeId} :
      Answers target ⟨target ::ₘ waiting, visited⟩ true
  | exhausted {visited : List NodeId} : Answers target ⟨0, visited⟩ false

/-- A search of the strict descendants of a node begins with its children. -/
def searchBelow (tree : Tree) (start : NodeId) : SearchState :=
  ⟨((tree.get? start).elim [] Node.children : List NodeId), []⟩

/-! ## Every search ends -/

/-- What bounds a search: the nodes that are waiting, and the edges that it has not followed. -/
def SearchState.size (tree : Tree) (state : SearchState) : Nat :=
  state.waiting.card + tree.pool.unexplored state.visited

theorem SearchStep.size_lt {before after : SearchState}
    (step : tree.SearchStep target before after) : after.size tree < before.size tree := by
  cases step with
  | seen =>
      simp only [SearchState.size, Multiset.card_cons]
      omega
  | @missing id waiting visited =>
      have bound := tree.pool.unexplored_visit_le visited id
      simp only [SearchState.size, Multiset.card_cons]
      omega
  | @node id node waiting visited other fresh found =>
      have bound := Pool.unexplored_visit_add_le found fresh
      simp only [SearchState.size, Multiset.card_cons, Multiset.card_add, Multiset.coe_card,
        Node.children, List.length_map]
      omega

theorem wellFounded_searchStep (tree : Tree) (target : NodeId) :
    WellFounded fun after before => tree.SearchStep target before after :=
  Subrelation.wf (fun step => step.size_lt) (measure (SearchState.size tree)).wf

/-- A search that has no answer yet goes on. -/
theorem SearchState.exists_step_or_answers (tree : Tree) (target : NodeId) (state : SearchState) :
    (∃ after, tree.SearchStep target state after) ∨ ∃ answer, state.Answers target answer := by
  rcases state with ⟨waiting, visited⟩
  rcases waiting.empty_or_exists_mem with rfl | ⟨id, member⟩
  · exact .inr ⟨false, .exhausted⟩
  rcases Multiset.exists_cons_of_mem member with ⟨rest, rfl⟩
  by_cases other : id = target
  · subst other
    exact .inr ⟨true, .found⟩
  by_cases seen : id ∈ visited
  · exact .inl ⟨_, .seen other seen⟩
  rcases found : tree.get? id with _ | node
  · exact .inl ⟨_, .missing other seen found⟩
  · exact .inl ⟨_, .node other seen found⟩

/-! ## Every search gives the same answer -/

/-- A path leads from a waiting node to the target, and it leaves no visited node. -/
def SearchState.ComesTo (tree : Tree) (target : NodeId) (state : SearchState) : Prop :=
  ∃ id ∈ state.waiting, ReflTransGen (tree.FreshStep state.visited) id target

theorem SearchStep.comesTo_iff {before after : SearchState}
    (step : tree.SearchStep target before after) :
    after.ComesTo tree target ↔ before.ComesTo tree target := by
  cases step with
  | @seen id waiting visited other seen =>
      induction waiting using Quotient.inductionOn with
      | h stack => exact freshPath_cons_iff_of_mem seen other
  | @missing id waiting visited other fresh missing =>
      induction waiting using Quotient.inductionOn with
      | h stack => exact freshPath_cons_iff_of_get?_eq_none missing other
  | @node id node waiting visited other fresh found =>
      induction waiting using Quotient.inductionOn with
      | h stack => exact freshPath_cons_iff fresh found other

theorem comesTo_iff_of_run {before after : SearchState}
    (run : ReflTransGen (tree.SearchStep target) before after) :
    after.ComesTo tree target ↔ before.ComesTo tree target := by
  induction run with
  | refl => exact Iff.rfl
  | tail _ step ih => exact step.comesTo_iff.trans ih

theorem SearchState.Answers.eq_true_iff (tree : Tree) {state : SearchState} {answer : Bool}
    (answers : state.Answers target answer) :
    answer = true ↔ state.ComesTo tree target := by
  cases answers with
  | found => exact iff_of_true rfl ⟨target, Multiset.mem_cons_self _ _, .refl⟩
  | exhausted => simp [ComesTo]

/-- Two searches from one state agree, though they look at the nodes in different orders. -/
theorem answer_unique {state first second : SearchState} {answer other : Bool}
    (run : ReflTransGen (tree.SearchStep target) state first)
    (answers : first.Answers target answer)
    (again : ReflTransGen (tree.SearchStep target) state second)
    (answersAgain : second.Answers target other) : answer = other := by
  rw [Bool.eq_iff_iff, answers.eq_true_iff tree, answersAgain.eq_true_iff tree,
    comesTo_iff_of_run run, comesTo_iff_of_run again]

/-- The search with a stack takes these steps, to its own answer. -/
theorem exists_run_search (tree : Tree) (target : NodeId) (stack visited : List NodeId) :
    ∃ state, ReflTransGen (tree.SearchStep target) ⟨stack, visited⟩ state ∧
      state.Answers target (tree.search target stack visited) := by
  fun_induction Tree.search tree target stack visited with
  | case1 => exact ⟨_, .refl, .exhausted⟩
  | case2 visited stack =>
      rw [← Multiset.cons_coe]
      exact ⟨_, .refl, .found⟩
  | case3 visited id stack other seen ih =>
      rcases ih with ⟨state, run, answers⟩
      rw [← Multiset.cons_coe]
      exact ⟨state, run.head (.seen other seen), answers⟩
  | case4 visited id stack other fresh missing ih =>
      rcases ih with ⟨state, run, answers⟩
      rw [← Multiset.cons_coe]
      exact ⟨state, run.head (.missing other fresh missing), answers⟩
  | case5 visited id stack other fresh node found ih =>
      rcases ih with ⟨state, run, answers⟩
      rw [← Multiset.cons_coe]
      exact ⟨state, run.head (.node other fresh found), answers⟩

theorem exists_run_reaches (tree : Tree) (start target : NodeId) :
    ∃ state, ReflTransGen (tree.SearchStep target) (tree.searchBelow start) state ∧
      state.Answers target (tree.reaches start target) := by
  rw [searchBelow, reaches]
  split
  · next node found =>
      rw [found]
      exact exists_run_search tree target node.children []
  · next missing =>
      rw [missing]
      exact ⟨_, .refl, .exhausted⟩

/-! ## Paths and cycles by their nodes -/

/-- A path of at least one edge.  All its nodes before the last are pooled. -/
def HasPath (tree : Tree) (start target : NodeId) : Prop :=
  ∃ between : List NodeId, (∀ id ∈ start :: between, id ∈ tree.pool.ids) ∧
    (start :: (between ++ [target])).IsChain tree.IsChild

/-- A directed cycle leads through the node, and it visits no node twice. -/
def IsOnCycle (tree : Tree) (id : NodeId) : Prop :=
  ∃ cycle : Cycle NodeId, cycle.Nodup ∧ cycle.Chain tree.IsChild ∧ id ∈ cycle

theorem mem_ids_of_path (path : TransGen tree.IsChild start target) : start ∈ tree.pool.ids := by
  rcases TransGen.head'_iff.mp path with ⟨_, step, _⟩
  exact step.parent_mem_ids

theorem hasPath_iff : tree.HasPath start target ↔ TransGen tree.IsChild start target := by
  constructor
  · rintro ⟨between, -, chain⟩
    induction between generalizing start with
    | nil => exact .single (List.isChain_pair.mp chain)
    | cons next between ih =>
        rcases List.isChain_cons_cons.mp chain with ⟨step, rest⟩
        exact .head step (ih rest)
  · intro path
    induction path using TransGen.head_induction_on with
    | single step => exact ⟨[], by simpa using step.parent_mem_ids, List.isChain_pair.mpr step⟩
    | @head id next step _ ih =>
        rcases ih with ⟨between, pooled, chain⟩
        exact ⟨next :: between, List.forall_mem_cons.mpr ⟨step.parent_mem_ids, pooled⟩,
          List.isChain_cons_cons.mpr ⟨step, chain⟩⟩

/-- A path without repetitions: where a path comes back to a node, the way round is left out. -/
theorem exists_nodup_isChain {step : NodeId → NodeId → Prop}
    (path : ReflTransGen step start target) :
    ∃ nodes : List NodeId, nodes.head? = some start ∧ nodes.getLast? = some target ∧
      nodes.Nodup ∧ nodes.IsChain step := by
  induction path using ReflTransGen.head_induction_on with
  | refl => exact ⟨[target], rfl, rfl, List.nodup_singleton _, .singleton _⟩
  | @head id next first _ ih =>
      rcases ih with ⟨nodes, begins, ends, distinct, chain⟩
      by_cases again : id ∈ nodes
      · rcases List.append_of_mem again with ⟨before, after, rfl⟩
        refine ⟨id :: after, rfl, ?_, (List.nodup_append.mp distinct).2.1, chain.right_of_append⟩
        rwa [List.getLast?_append_cons] at ends
      · refine ⟨id :: nodes, rfl, ?_, List.nodup_cons.mpr ⟨again, distinct⟩, ?_⟩
        · simp [List.getLast?_cons, ends]
        · refine List.isChain_cons.mpr ⟨?_, chain⟩
          simpa [begins] using first

theorem isOnCycle_iff {id : NodeId} : tree.IsOnCycle id ↔ TransGen tree.IsChild id id := by
  constructor
  · rintro ⟨cycle, -, chain, member⟩
    -- Along a cycle of paths, which compose, each node has a path to each other one and to itself.
    have paths : cycle.Chain (TransGen tree.IsChild) := chain.imp fun _ _ step => .single step
    exact Cycle.chain_iff_pairwise.mp paths id member id member
  · intro path
    -- The shortened way back from the first child is closed by the edge to that child.
    rcases TransGen.head'_iff.mp path with ⟨child, step, back⟩
    rcases exists_nodup_isChain back with ⟨nodes, begins, ends, distinct, chain⟩
    rcases List.getLast?_eq_some_iff.mp ends with ⟨front, rfl⟩
    refine ⟨(id :: front : List NodeId), ?_, ?_, ?_⟩
    · rw [Cycle.nodup_coe_iff]
      exact (List.perm_append_singleton id front).nodup_iff.mp distinct
    · rw [Cycle.chain_coe_cons, List.isChain_cons]
      exact ⟨by simpa [begins] using step, chain⟩
    · exact Cycle.mem_coe_iff.mpr List.mem_cons_self

/-! ## Strict descendants -/

/-- What the search of the strict descendants comes to. -/
structure ReachesExactly (tree : Tree) (start target : NodeId) : Prop where
  /-- No search goes on forever. -/
  ends : Acc (fun after before => tree.SearchStep target before after) (tree.searchBelow start)
  /-- A search goes on until it has an answer. -/
  goesOn : ∀ state, ReflTransGen (tree.SearchStep target) (tree.searchBelow start) state →
    (∃ after, tree.SearchStep target state after) ∨ ∃ answer, state.Answers target answer
  /-- There is one answer, whichever of the waiting nodes come first. -/
  answers : ∀ state answer, ReflTransGen (tree.SearchStep target) (tree.searchBelow start) state →
    state.Answers target answer → answer = tree.reaches start target
  path : tree.reaches start target = true ↔ tree.HasPath start target
  cycle : tree.reaches start start = true ↔ tree.IsOnCycle start
  /-- One node is reached through another one, which is pooled then. -/
  transitive : ∀ middle, tree.reaches start middle = true → tree.reaches middle target = true →
    middle ∈ tree.pool.ids ∧ tree.reaches start target = true

/-- The search of the strict descendants is exact in every graph. -/
theorem reaches_exact (tree : Tree) (start target : NodeId) :
    tree.ReachesExactly start target where
  ends := (wellFounded_searchStep tree target).apply _
  goesOn := fun state _ => state.exists_step_or_answers tree target
  answers := by
    intro state answer run answers
    rcases exists_run_reaches tree start target with ⟨last, runs, decided⟩
    exact answer_unique run answers runs decided
  path := by rw [reaches_iff, hasPath_iff]
  cycle := by rw [reaches_iff, isOnCycle_iff]
  transitive := by
    intro middle first second
    rw [reaches_iff] at first second ⊢
    exact ⟨mem_ids_of_path second, first.trans second⟩

end BehaviorTree.Tree
