import BehaviorTree.Tree.Hierarchy

/-!
# Outlines

An outline lists a node and everything below it, once for every way down.  It ends because a node
does not stand below itself; where one does, the outline stops at it.
-/

namespace BehaviorTree

/-- A line of an outline: a node, the bindings of the edge that led to it, and its depth. -/
structure OutlineEntry where
  id : NodeId
  node : Node
  /-- A root has no bindings. -/
  bindings : Option ParameterSet
  depth : Nat
deriving DecidableEq

/-- A kind with what tells its nodes apart, such as `AccessLimit Weapons.Reload`. -/
def NodeKind.summary : NodeKind → String
  | composite content => word content.type
  | decorator content =>
      match content.accessLimit? with
      | some limit => s!"AccessLimit {limit.className}.{limit.accessKey}"
      | none => word content.type
  | changeState destination => s!"ChangeState -> {destination}"
  | kind => word kind.type

/-- The line of an entry, such as `Shoot(count = 3) [Action]`. -/
def OutlineEntry.text (entry : OutlineEntry) : String :=
  let bindings := (entry.bindings.map ParameterSet.display).getD ""
  s!"{entry.node.name}{bindings} [{entry.node.kind.summary}]"

namespace Pool

/-- How many pooled nodes are not among those given. -/
def outside (pool : Pool) (above : List NodeId) : Nat :=
  (pool.filter fun entry => entry.1 ∉ above).length

theorem outside_cons_lt {pool : Pool} {above : List NodeId} {id : NodeId} {node : Node}
    (found : pool.get? id = some node) (fresh : id ∉ above) :
    pool.outside (id :: above) < pool.outside above := by
  induction pool with
  | nil => simp [get?] at found
  | cons entry pool ih =>
      obtain ⟨other, candidate⟩ := entry
      have fewer : outside pool (id :: above) ≤ outside pool above := by
        simp only [outside, ← List.countP_eq_length_filter]
        apply List.countP_mono_left
        intro entry _
        simp
      simp only [get?, List.lookup_cons] at found ih
      by_cases same : id = other
      · subst same
        simp only [outside, List.filter_cons, List.mem_cons, true_or, not_true, decide_false,
          fresh, not_false_eq_true, decide_true, if_true, List.length_cons] at fewer ⊢
        exact Nat.lt_succ_of_le fewer
      · have different : (id == other) = false := by simpa using same
        rw [different] at found
        have rest := ih found
        have reversed : ¬other = id := fun equal => same equal.symm
        simp only [outside, List.filter_cons, List.mem_cons, reversed, false_or] at rest ⊢
        split
        · simpa only [List.length_cons] using Nat.succ_lt_succ rest
        · exact rest

end Pool

namespace Tree

/-- The outline of a node below the nodes in `above`. -/
def outlineBelow (tree : Tree) (above : List NodeId) (bindings : Option ParameterSet)
    (id : NodeId) : List OutlineEntry :=
  if _ : id ∈ above then
    []
  else
    match _ : tree.get? id with
    | none => []
    | some node =>
        ⟨id, node, bindings, above.length⟩ ::
          node.edges.flatMap fun edge =>
            tree.outlineBelow (id :: above) (some edge.bindings) edge.child
termination_by tree.pool.outside above
decreasing_by
  exact Pool.outside_cons_lt ‹tree.get? id = some node› ‹id ∉ above›

/-- The outline of a node. -/
def outline (tree : Tree) (id : NodeId) : List OutlineEntry :=
  tree.outlineBelow [] none id

end Tree

end BehaviorTree
