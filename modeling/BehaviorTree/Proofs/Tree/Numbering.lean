import BehaviorTree.Document.Numbering
import BehaviorTree.Proofs.Tree.Fitting
import Mathlib.Data.List.Nodup

/-!
# Numbers of nodes

Every pooled node has exactly one number.  The numbers depend on the shape of a tree alone: when its
nodes get other identities, a walk meets the same nodes in the same order.
-/

namespace BehaviorTree.Tree

open Relation

variable {tree : Tree}

/-! ## The order of numbers -/

theorem mem_extras_iff {id : NodeId} :
    id ∈ tree.extras ↔ id ∈ tree.pool.ids ∧ id ∉ tree.hierarchy := by
  simp [extras]

theorem mem_numbered_iff {id : NodeId} : id ∈ tree.numbered ↔ id ∈ tree.pool.ids := by
  rw [numbered, List.mem_append, mem_extras_iff]
  constructor
  · rintro (reached | ⟨pooled, _⟩)
    · exact Pool.mem_ids_iff.mpr (mem_hierarchy_iff.mp reached).2
    · exact pooled
  · intro pooled
    by_cases reached : id ∈ tree.hierarchy
    · exact .inl reached
    · exact .inr ⟨pooled, reached⟩

theorem nodup_numbered (distinct : tree.pool.ids.Nodup) : tree.numbered.Nodup := by
  apply List.Nodup.append (nodup_hierarchy tree) (distinct.filter _)
  intro id reached extra
  exact (mem_extras_iff.mp extra).2 reached

/-- The numbers are given to the pooled nodes, each once. -/
theorem numbered_perm (distinct : tree.pool.ids.Nodup) : tree.numbered.Perm tree.pool.ids :=
  (List.perm_ext_iff_of_nodup (nodup_numbered distinct) distinct).mpr fun _ => mem_numbered_iff

theorem length_numbered (distinct : tree.pool.ids.Nodup) :
    tree.numbered.length = tree.pool.length := by
  rw [(numbered_perm distinct).length_eq, Pool.ids, List.length_map]

/-! ## States in the order of numbers -/

/-- Whether an identity is that of a state. -/
def holdsState (tree : Tree) (id : NodeId) : Bool :=
  (tree.get? id).any Node.isState

theorem holdsState_iff {id : NodeId} :
    tree.holdsState id = true ↔ ∃ node, tree.get? id = some node ∧ node.isState = true := by
  rw [holdsState, Option.any_eq_true]

/-- A walk from nodes that are no states comes to no state. -/
theorem mem_visited_of_state (coherent : tree.Coherent) {stack visited : List NodeId}
    (ordinary : ∀ start ∈ stack, ∀ node, tree.get? start = some node → node.isState = false)
    {id : NodeId} {node : Node} (found : tree.get? id = some node) (isState : node.isState = true)
    (after : id ∈ (tree.walk stack visited).1) : id ∈ visited := by
  rcases (mem_visited_walk_iff tree stack visited id).mp after with old | ⟨start, startMem, path⟩
  · exact old
  rcases (path_of_freshPath path).cases_tail with rfl | ⟨parent, _, step⟩
  · cases isState.symm.trans (ordinary id startMem node found)
  · cases isState.symm.trans (coherent.child_ordinary step found)

/-- A walk from states meets them in their order, and no other states. -/
theorem filter_walk (coherent : tree.Coherent) {states visited : List NodeId}
    (distinct : states.Nodup) (fresh : ∀ id ∈ states, id ∉ visited)
    (areStates : ∀ id ∈ states, ∃ node, tree.get? id = some node ∧ node.isState = true) :
    (tree.walk states visited).2.filter tree.holdsState = states := by
  induction states generalizing visited with
  | nil => simp [walk]
  | cons id states ih =>
      rcases areStates id List.mem_cons_self with ⟨node, found, isState⟩
      rcases List.nodup_cons.mp distinct with ⟨notLater, laterDistinct⟩
      have ordinary : ∀ child ∈ node.children, ∀ childNode,
          tree.get? child = some childNode → childNode.isState = false := by
        intro child childMem childNode childFound
        exact coherent.child_ordinary ⟨node, found, childMem⟩ childFound
      have below : (tree.walk node.children (id :: visited)).2.filter tree.holdsState = [] := by
        rw [List.filter_eq_nil_iff]
        intro other met isState
        rcases holdsState_iff.mp isState with ⟨otherNode, otherFound, otherState⟩
        rcases (mem_met_walk_iff tree _ _ other).mp met with ⟨unseen, after, _⟩
        exact unseen (mem_visited_of_state coherent ordinary otherFound otherState after)
      have later : (tree.walk states (tree.walk node.children (id :: visited)).1).2.filter
          tree.holdsState = states := by
        refine ih laterDistinct ?_ fun other member =>
          areStates other (List.mem_cons_of_mem _ member)
        intro other member seen
        rcases areStates other (List.mem_cons_of_mem _ member) with
          ⟨otherNode, otherFound, otherState⟩
        rcases List.mem_cons.mp
          (mem_visited_of_state coherent ordinary otherFound otherState seen) with rfl | old
        · exact notLater member
        · exact fresh other (List.mem_cons_of_mem _ member) old
      rw [walk, dif_neg (fresh id List.mem_cons_self)]
      split
      · next missing => simp [found] at missing
      · next other otherFound =>
          rw [found, Option.some.injEq] at otherFound
          subst other
          have known : tree.holdsState id = true := holdsState_iff.mpr ⟨node, found, isState⟩
          simp only [walk_append, List.filter_cons, List.filter_append, below, later, known,
            ↓reduceIte, List.nil_append]

/-- The states have their numbers in their own order. -/
theorem Rooted.filter_numbered (rooted : tree.Rooted) :
    tree.numbered.filter tree.holdsState = tree.states := by
  have reached : tree.hierarchy.filter tree.holdsState = tree.states := by
    rw [hierarchy_eq_walk]
    exact filter_walk rooted.toCoherent rooted.states_distinct (fun _ _ => List.not_mem_nil)
      fun id member => (rooted.mem_states id).mp member
  have unreached : tree.extras.filter tree.holdsState = [] := by
    rw [List.filter_eq_nil_iff]
    intro id extra isState
    rcases holdsState_iff.mp isState with ⟨node, found, known⟩
    have member := (rooted.mem_states id).mpr ⟨node, found, known⟩
    exact (mem_extras_iff.mp extra).2
      (mem_hierarchy_iff.mpr ⟨⟨id, member, .refl⟩, node, found⟩)
  rw [numbered, List.filter_append, reached, unreached, List.append_nil]

/-! ## Other identities -/

theorem idxOf?_map {place : NodeId → NodeId} {id : NodeId} {ids : List NodeId}
    (distinct : ∀ other ∈ ids, place id = place other → id = other) :
    (ids.map place).idxOf? (place id) = ids.idxOf? id := by
  induction ids with
  | nil => rfl
  | cons other ids ih =>
      rw [List.map_cons, List.idxOf?_cons, List.idxOf?_cons,
        ih fun later member => distinct later (List.mem_cons_of_mem _ member)]
      by_cases same : other = id
      · simp [same]
      · have placedApart : place other ≠ place id := fun equal =>
          same (distinct other List.mem_cons_self equal.symm).symm
        simp [same, placedApart]

/-- A walk of the same shape under other identities.  Only what the walk can come to has to be
there. -/
theorem walk_map {copy : Tree} {place : NodeId → NodeId} (inside : NodeId → Prop)
    (distinct : ∀ id, inside id → ∀ other, inside other → place id = place other → id = other)
    (closed : ∀ id child, inside id → tree.IsChild id child → inside child)
    (nodes : ∀ id, inside id → (copy.get? (place id)).map Node.children =
      (tree.get? id).map fun node => node.children.map place)
    {stack visited : List NodeId} (stackInside : ∀ id ∈ stack, inside id)
    (visitedInside : ∀ id ∈ visited, inside id) :
    copy.walk (stack.map place) (visited.map place) =
      ((tree.walk stack visited).1.map place, (tree.walk stack visited).2.map place) := by
  have mem_map_iff : ∀ id, inside id → ∀ visited : List NodeId,
      (∀ other ∈ visited, inside other) → (place id ∈ visited.map place ↔ id ∈ visited) := by
    intro id isInside visited visitedInside
    constructor
    · intro member
      rcases List.mem_map.mp member with ⟨other, otherMem, same⟩
      exact distinct other (visitedInside other otherMem) id isInside same ▸ otherMem
    · exact List.mem_map_of_mem
  have cons_inside : ∀ (id : NodeId) (rest : List NodeId), inside id →
      (∀ other ∈ rest, inside other) → ∀ other ∈ id :: rest, inside other := by
    intro id rest isInside restInside other member
    rcases List.mem_cons.mp member with rfl | old
    · exact isInside
    · exact restInside other old
  fun_induction Tree.walk tree stack visited with
  | case1 => simp [walk]
  | case2 visited first stack seen ih =>
      rw [List.map_cons, walk, dif_pos (List.mem_map_of_mem seen)]
      exact ih (fun id member => stackInside id (List.mem_cons_of_mem _ member)) visitedInside
  | case3 visited first stack fresh missing ih =>
      have firstInside := stackInside first List.mem_cons_self
      have copiedMissing : copy.get? (place first) = none := by
        simpa [missing] using nodes first firstInside
      rw [List.map_cons, walk,
        dif_neg (mt (mem_map_iff first firstInside visited visitedInside).mp fresh)]
      split
      · exact ih (fun id member => stackInside id (List.mem_cons_of_mem _ member))
          (cons_inside first visited firstInside visitedInside)
      · next found => simp [copiedMissing] at found
  | case4 visited first stack fresh node found after met walked ih =>
      have firstInside := stackInside first List.mem_cons_self
      have copied := nodes first firstInside
      rw [found, Option.map_some] at copied
      rcases Option.map_eq_some_iff.mp copied with ⟨copiedNode, copiedFound, children⟩
      have rest := ih ?_ (cons_inside first visited firstInside visitedInside)
      · rw [List.map_cons, walk,
          dif_neg (mt (mem_map_iff first firstInside visited visitedInside).mp fresh)]
        split
        · next missing => simp [copiedFound] at missing
        · next other otherFound =>
            rw [copiedFound, Option.some.injEq] at otherFound
            subst other
            rw [List.map_append, List.map_cons, ← children, walked] at rest
            rw [rest]
            rfl
      · intro id member
        rcases List.mem_append.mp member with childMem | later
        · exact closed first id firstInside ⟨node, found, childMem⟩
        · exact stackInside id (List.mem_cons_of_mem _ later)

/-! ## Other bindings -/

/-- The numbers are up to the children of the nodes alone. -/
theorem Restyles.numbered_eq {after : Tree} (restyles : tree.Restyles after) :
    after.numbered = tree.numbered := by
  have walked : after.walk (tree.states.map id) (List.map id []) =
      ((tree.walk tree.states []).1.map id, (tree.walk tree.states []).2.map id) := by
    apply walk_map fun _ => True
    · exact fun _ _ _ _ same => same
    · exact fun _ _ _ _ => trivial
    · intro child _
      simpa using restyles.children child
    · exact fun _ _ => trivial
    · exact fun _ _ => trivial
  have hierarchy : after.hierarchy = tree.hierarchy := by
    simp only [List.map_id, List.map_nil] at walked
    rw [hierarchy_eq_walk, hierarchy_eq_walk, restyles.states, walked]
  rw [numbered, numbered, extras, extras, hierarchy, restyles.ids]

end BehaviorTree.Tree
