import BehaviorTree.Proofs.Tree.Cycles

/-!
# Nodes that are given back

A deletion hands out the node with the edges that it had, and any node can be added.  So a deleted node
can be given back to its tree, where it gets a new identity but still refers to its old children.

Its children may have been deleted in the meantime.  Whether they have is all that matters: what a node
is and where it may stand does not change while it is pooled, and no identity is issued twice.
-/

namespace BehaviorTree

open Relation

/-! ## Runs that give nodes back -/

/-- The nodes that an edit hands out: the one that it deletes. -/
def Edit.handedOut (edit : Edit) (tree : Tree) : List Node :=
  match edit, (edit.apply tree).1 with
  | .deleteNode _, .ok (.node node) => [node]
  | _, _ => []

/-- An added node has no edges, or it is one of these. -/
def Edit.AddsFrom (nodes : List Node) : Edit → Prop
  | addNode node => node.edges = [] ∨ node ∈ nodes
  | _ => True

/-- Every node that a run adds has no edges, or it has been handed out before: it is one of these, or
the run itself has deleted it. -/
def Edit.AllAddFrom : List Edit → List Node → Tree → Prop
  | [], _, _ => True
  | edit :: edits, nodes, tree =>
      edit.AddsFrom nodes ∧ AllAddFrom edits (nodes ++ edit.handedOut tree) (edit.apply tree).2

/-- The children of an added node are pooled. -/
def Edit.Rejoins (tree : Tree) : Edit → Prop
  | addNode node => ∀ child ∈ node.children, child ∈ tree.pool.ids
  | _ => True

/-- Whenever a run adds a node, the children of the node are pooled. -/
def Edit.AllRejoin : List Edit → Tree → Prop
  | [], _ => True
  | edit :: edits, tree => edit.Rejoins tree ∧ AllRejoin edits (edit.apply tree).2

/-- Every edge leads to a pooled node. -/
def Tree.IsClosed (tree : Tree) : Prop :=
  ∀ parent child, tree.IsChild parent child → child ∈ tree.pool.ids

/-- A node could stand in a tree, as far as its children are there. -/
structure Tree.Remembers (tree : Tree) (node : Node) : Prop where
  ordinary : node.isState = false
  leaf : node.isLeaf = true → node.edges = []
  created : ∀ child ∈ node.children, child.index < tree.created
  children : ∀ child ∈ node.children, ∀ other, tree.get? child = some other → other.isState = false

variable {tree after : Tree} {edit : Edit} {answer : Answer} {node : Node} {nodes : List Node}

/-! ## What is remembered -/

theorem Edit.IsBare.rejoins (bare : edit.IsBare) (tree : Tree) : edit.Rejoins tree := by
  cases edit with
  | addNode node =>
      have none : node.edges = [] := bare
      simp [Rejoins, Node.children, none]
  | _ => trivial

/-- No edit changes the role of a node that it leaves in the pool. -/
theorem Edit.Reshapes.role {id : NodeId} (reshapes : edit.Reshapes tree after)
    (coherent : tree.Coherent) (created : id.index < tree.created) (found : after.get? id = some node) :
    ∃ old, tree.get? id = some old ∧ node.role = old.role := by
  have older : id ≠ tree.nextId := by
    rintro rfl
    exact Nat.lt_irrefl _ created
  cases reshapes with
  | inPlace inPlace => exact inPlace.node found
  | insert ordinary =>
      rcases (Tree.get?_insert_iff coherent).mp found with old | ⟨new, _⟩
      · exact ⟨node, old, rfl⟩
      · exact absurd new older
  | withoutNode detached =>
      rcases Tree.get?_withoutNode_eq_some found with ⟨_, old, oldFound, rfl⟩
      exact ⟨old, oldFound, rfl⟩
  | insertState =>
      rcases (Tree.get?_insertState_iff coherent).mp found with old | ⟨new, _⟩
      · exact ⟨node, old, rfl⟩
      · exact absurd new older
  | withoutState =>
      rcases Tree.get?_withoutState_eq_some.mp found with ⟨_, old⟩
      exact ⟨node, old, rfl⟩

theorem Tree.Remembers.step (remembers : tree.Remembers node) (coherent : tree.Coherent)
    (accepted : edit.Accepted tree answer after) : after.Remembers node where
  ordinary := remembers.ordinary
  leaf := remembers.leaf
  created := by
    intro child member
    have before := remembers.created child member
    rcases accepted.issues with ⟨_, created⟩ | ⟨_, created⟩ <;> omega
  children := by
    intro child member other found
    have created := remembers.created child member
    rcases accepted.reshapes.role coherent created found with ⟨old, oldFound, role⟩
    have same : other.isState = old.isState := congrArg Prod.fst role
    rw [same]
    exact remembers.children child member old oldFound

theorem Tree.Rooted.remembers_detached {id : NodeId} (rooted : tree.Rooted)
    (found : tree.get? id = some node) (detached : ¬tree.IsReached id) :
    tree.Remembers (node.detachedFrom id) := by
  have kept : ∀ child ∈ (node.detachedFrom id).children, tree.IsChild id child := by
    intro child member
    rcases List.mem_map.mp member with ⟨edge, edgeMem, rfl⟩
    exact ⟨node, found, List.mem_map_of_mem (List.mem_of_mem_filter edgeMem)⟩
  constructor
  · by_contra state
    rw [Bool.not_eq_false] at state
    exact detached ⟨id, (rooted.mem_states id).mpr ⟨node, found, state⟩, .refl⟩
  · intro leaf
    have none := rooted.leaves id node found leaf
    simp [Node.detachedFrom, none]
  · intro child member
    exact rooted.bounded child (rooted.toCoherent.child_mem_ids (kept child member))
  · intro child member other otherFound
    exact rooted.toCoherent.child_ordinary (kept child member) otherFound

/-- What has been handed out is still remembered after an edit, and so is what this edit hands out. -/
theorem Tree.Rooted.remembers_step (rooted : tree.Rooted) (edit : Edit)
    (remembered : ∀ node ∈ nodes, tree.Remembers node) :
    ∀ node ∈ nodes ++ edit.handedOut tree, (edit.apply tree).2.Remembers node := by
  rcases edit.apply_cases rooted.pooled with ⟨refusal, refused⟩ | ⟨answer, after, done, accepted⟩
  · have none : edit.handedOut tree = [] := by
      cases edit <;> simp [Edit.handedOut, refused]
    simpa only [none, List.append_nil, refused] using remembered
  · intro node member
    simp only [done]
    rcases List.mem_append.mp member with old | new
    · exact (remembered node old).step rooted.toCoherent accepted
    · cases accepted with
      | deleteNode found detached =>
          simp only [Edit.handedOut, done, List.mem_singleton] at new
          subst new
          exact (rooted.remembers_detached found detached).step rooted.toCoherent
            (.deleteNode found detached)
      | _ => simp [Edit.handedOut] at new

/-! ## Adding a node with edges -/

theorem Tree.isChild_insert_next (coherent : tree.Coherent) {child : NodeId}
    (member : child ∈ node.children) : (tree.insert node).IsChild tree.nextId child :=
  ⟨node, (get?_insert_iff coherent).mpr (.inr ⟨rfl, rfl⟩), member⟩

theorem Tree.Coherent.rejoin (coherent : tree.Coherent) (remembers : tree.Remembers node)
    (rejoins : ∀ child ∈ node.children, child ∈ tree.pool.ids) : (tree.insert node).Coherent where
  ordered := ordered_insert node coherent.ordered coherent.bounded
  bounded := bounded_insert node coherent.bounded
  closed := by
    intro parent child step
    have pooled : ∃ other, tree.get? child = some other ∧ other.isState = false := by
      rcases isChild_of_insert step with old | ⟨_, new⟩
      · exact coherent.closed parent child old
      · rcases exists_get? (rejoins child new) with ⟨other, found⟩
        exact ⟨other, found, remembers.children child new other found⟩
    rcases pooled with ⟨other, found, ordinary⟩
    exact ⟨other, (get?_insert_iff coherent).mpr (.inl found), ordinary⟩
  leaves := by
    intro id other found leaf
    rcases (get?_insert_iff coherent).mp found with old | ⟨_, rfl⟩
    · exact coherent.leaves id other old leaf
    · exact remembers.leaf leaf
  acyclic := by
    apply acyclic_insert coherent.acyclic
    intro parent child step
    rcases isChild_of_insert step with old | ⟨_, new⟩
    · exact coherent.bounded child (coherent.child_mem_ids old)
    · exact remembers.created child new

theorem Tree.Rooted.rejoin (rooted : tree.Rooted) (remembers : tree.Remembers node)
    (rejoins : ∀ child ∈ node.children, child ∈ tree.pool.ids) : (tree.insert node).Rooted :=
  rooted.insert_of_coherent (rooted.toCoherent.rejoin remembers rejoins) remembers.ordinary

theorem Edit.Accepted.rooted_of_rejoins (accepted : edit.Accepted tree answer after)
    (rooted : tree.Rooted) (remembered : ∀ node ∈ nodes, tree.Remembers node)
    (adds : edit.AddsFrom nodes) (rejoins : edit.Rejoins tree) : after.Rooted := by
  by_cases bare : edit.IsBare
  · exact accepted.rooted bare rooted
  · cases accepted with
    | addNode ordinary => exact rooted.rejoin (remembered _ (adds.resolve_left bare)) rejoins
    | _ => exact absurd trivial bare

/-! ## Runs -/

theorem Tree.Rooted.isClosed (rooted : tree.Rooted) : tree.IsClosed :=
  fun _ _ step => rooted.toCoherent.child_mem_ids step

section Step

variable (rooted : tree.Rooted) (remembered : ∀ node ∈ nodes, tree.Remembers node)
  (adds : edit.AddsFrom nodes)
include rooted remembered adds

theorem Edit.rooted_apply_of_rejoins (rejoins : edit.Rejoins tree) :
    (edit.apply tree).2.Rooted := by
  rcases edit.apply_cases rooted.pooled with ⟨refusal, refused⟩ | ⟨answer, after, done, accepted⟩
  · simpa only [refused] using rooted
  · simpa only [done] using accepted.rooted_of_rejoins rooted remembered adds rejoins

/-- A node that is given back without one of its children leaves the tree open. -/
theorem Edit.rejoins_of_isClosed (closed : (edit.apply tree).2.IsClosed) : edit.Rejoins tree := by
  by_cases bare : edit.IsBare
  · exact bare.rejoins tree
  · cases edit with
    | addNode node =>
        have remembers := remembered node (adds.resolve_left bare)
        have done : (addNode node).apply tree = (.ok (.id tree.nextId), tree.insert node) :=
          apply_eq_ok_iff.mpr (.addNode remembers.ordinary)
        intro child member
        have pooled := closed tree.nextId child (by
          simpa only [done] using Tree.isChild_insert_next rooted.toCoherent member)
        simp only [done, Tree.ids_insert, List.mem_append, List.mem_singleton] at pooled
        rcases pooled with old | rfl
        · exact old
        · exact absurd (remembers.created _ member) (Nat.lt_irrefl _)
    | _ => trivial

end Step

namespace Edit

variable {edits : List Edit}

/-- Where each added node finds its children, the tree stays rooted. -/
theorem rooted_applyAll_of_rejoin (rooted : tree.Rooted)
    (remembered : ∀ node ∈ nodes, tree.Remembers node) (adds : AllAddFrom edits nodes tree)
    (rejoin : AllRejoin edits tree) : (applyAll edits tree).Rooted := by
  induction edits generalizing tree nodes with
  | nil => exact rooted
  | cons edit edits ih =>
      exact ih (rooted_apply_of_rejoins rooted remembered adds.1 rejoin.1)
        (rooted.remembers_step edit remembered) adds.2 rejoin.2

/-- The pool stays closed throughout a run if and only if each added node finds its children. -/
theorem allRejoin_iff_closed (rooted : tree.Rooted)
    (remembered : ∀ node ∈ nodes, tree.Remembers node) (adds : AllAddFrom edits nodes tree) :
    (∀ count, (applyAll (edits.take count) tree).IsClosed) ↔ AllRejoin edits tree := by
  induction edits generalizing tree nodes with
  | nil =>
      refine iff_of_true (fun count => ?_) trivial
      rw [List.take_nil]
      exact rooted.isClosed
  | cons edit edits ih =>
      have later : edit.Rejoins tree →
          ((∀ count, (applyAll (edits.take count) (edit.apply tree).2).IsClosed) ↔
            AllRejoin edits (edit.apply tree).2) := fun rejoins =>
        ih (rooted_apply_of_rejoins rooted remembered adds.1 rejoins)
          (rooted.remembers_step edit remembered) adds.2
      constructor
      · intro closed
        have rejoins := rejoins_of_isClosed rooted remembered adds.1 (closed 1)
        exact ⟨rejoins, (later rejoins).mp fun count => closed (count + 1)⟩
      · rintro ⟨rejoins, rest⟩ count
        cases count with
        | zero => exact rooted.isClosed
        | succ count => exact (later rejoins).mpr rest count

end Edit

end BehaviorTree
