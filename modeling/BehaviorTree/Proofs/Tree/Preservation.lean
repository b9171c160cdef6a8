import BehaviorTree.Proofs.Tree.Invariants
import Mathlib.Data.List.InsertIdx
import Mathlib.Data.List.Nodup

/-!
# What edits keep

Every accepted edit keeps the invariants of a tree; so does every run of edits, since a refused edit
changes nothing.  An edit that adds a node is asked to bring no edges with it.
-/

namespace BehaviorTree

open BehaviorTree.Number Relation

namespace Tree

variable {tree : Tree}

/-! ## New nodes -/

theorem get?_insert_iff {id : NodeId} {node newNode : Node} (coherent : tree.Coherent) :
    (tree.insert newNode).get? id = some node ↔
      tree.get? id = some node ∨ (id = tree.nextId ∧ newNode = node) := by
  rw [get?_insert]
  by_cases same : id = tree.nextId
  · simp [same, coherent.get?_nextId]
  · simp [same]

theorem isChild_insert {node : Node} {parent child : NodeId} (coherent : tree.Coherent)
    (bare : node.edges = []) (step : (tree.insert node).IsChild parent child) :
    tree.IsChild parent child := by
  rcases step with ⟨parentNode, found, childMem⟩
  rcases (get?_insert_iff coherent).mp found with old | ⟨_, rfl⟩
  · exact ⟨parentNode, old, childMem⟩
  · simp [Node.children, bare] at childMem

theorem ids_insert (tree : Tree) (node : Node) :
    (tree.insert node).pool.ids = tree.pool.ids ++ [tree.nextId] := by
  simp [insert, Pool.ids]

theorem ordered_insert (node : Node) (ordered : tree.pool.ids.Pairwise (·.index < ·.index))
    (bounded : ∀ id ∈ tree.pool.ids, id.index < tree.created) :
    (tree.insert node).pool.ids.Pairwise (·.index < ·.index) := by
  rw [ids_insert, List.pairwise_append]
  refine ⟨ordered, List.pairwise_singleton _ _, ?_⟩
  intro id member next nextMem
  rw [List.mem_singleton] at nextMem
  exact nextMem ▸ bounded id member

theorem bounded_insert (node : Node) (bounded : ∀ id ∈ tree.pool.ids, id.index < tree.created) :
    ∀ id ∈ (tree.insert node).pool.ids, id.index < (tree.insert node).created := by
  intro id member
  rw [ids_insert, List.mem_append, List.mem_singleton] at member
  rcases member with old | rfl
  · exact Nat.lt_succ_of_lt (bounded id old)
  · exact Nat.lt_succ_self _

theorem Coherent.insert {node : Node} (coherent : tree.Coherent) (bare : node.edges = []) :
    (tree.insert node).Coherent where
  ordered := ordered_insert node coherent.ordered coherent.bounded
  bounded := bounded_insert node coherent.bounded
  closed := by
    intro parent child step
    rcases coherent.closed parent child (isChild_insert coherent bare step)
      with ⟨childNode, found, ordinary⟩
    exact ⟨childNode, (get?_insert_iff coherent).mpr (.inl found), ordinary⟩
  leaves := by
    intro id other found leaf
    rcases (get?_insert_iff coherent).mp found with old | ⟨_, rfl⟩
    · exact coherent.leaves id other old leaf
    · exact bare
  acyclic := acyclic_of_subgraph coherent.acyclic fun _ _ => isChild_insert coherent bare

theorem Rooted.insert_of_coherent {node : Node} (rooted : tree.Rooted)
    (coherent : (tree.insert node).Coherent) (ordinary : node.isState = false) :
    (tree.insert node).Rooted where
  toCoherent := coherent
  states_nonempty := rooted.states_nonempty
  states_distinct := rooted.states_distinct
  mem_states := by
    intro id
    change id ∈ tree.states ↔ _
    rw [rooted.mem_states]
    refine exists_congr fun other => ?_
    rw [get?_insert_iff rooted.toCoherent]
    constructor
    · exact fun old => ⟨.inl old.1, old.2⟩
    · rintro ⟨old | ⟨_, rfl⟩, isState⟩
      · exact ⟨old, isState⟩
      · simp [ordinary] at isState

theorem Rooted.insert {node : Node} (rooted : tree.Rooted) (bare : node.edges = [])
    (ordinary : node.isState = false) : (tree.insert node).Rooted :=
  rooted.insert_of_coherent (rooted.toCoherent.insert bare) ordinary

theorem Authored.insert {node : Node} (authored : tree.Authored) (bare : node.edges = [])
    (ordinary : node.isState = false) : (tree.insert node).Authored where
  toRooted := authored.toRooted.insert bare ordinary
  names_distinct := by
    have pooled {id : NodeId} {other : Node} (member : id ∈ tree.states)
        (found : (tree.insert node).get? id = some other) : tree.get? id = some other := by
      rcases (get?_insert_iff authored.toCoherent).mp found with old | ⟨rfl, _⟩
      · exact old
      · rcases authored.pooled _ member with ⟨_, found⟩
        simp [authored.get?_nextId] at found
    intro id member other otherMember first second firstFound secondFound
    exact authored.names_distinct id member other otherMember first second
      (pooled member firstFound) (pooled otherMember secondFound)
  default_found := by
    rcases authored.default_found with ⟨id, member, state, found, named⟩
    exact ⟨id, member, state, (get?_insert_iff authored.toCoherent).mpr (.inl found), named⟩
  single := by
    intro id other found decorator
    rcases (get?_insert_iff authored.toCoherent).mp found with old | ⟨_, rfl⟩
    · exact authored.single id other old decorator
    · simp [bare]

theorem isState_state (name : String) : (Node.state name).isState = true :=
  rfl

theorem get?_insertState_iff {id : NodeId} {node : Node} {name : String}
    (coherent : tree.Coherent) :
    (tree.insertState name).get? id = some node ↔
      tree.get? id = some node ∨ (id = tree.nextId ∧ Node.state name = node) :=
  get?_insert_iff coherent

/-- A fresh state joins the states of any coherent graph. -/
theorem mem_states_insertState {name : String} (coherent : tree.Coherent)
    (states : ∀ id, id ∈ tree.states ↔ ∃ node, tree.get? id = some node ∧ node.isState = true)
    (id : NodeId) :
    id ∈ (tree.insertState name).states ↔
      ∃ node, (tree.insertState name).get? id = some node ∧ node.isState = true := by
  simp only [get?_insertState_iff coherent]
  change id ∈ tree.states ++ [tree.nextId] ↔ _
  rw [List.mem_append, List.mem_singleton, states]
  constructor
  · rintro (⟨node, found, isState⟩ | rfl)
    · exact ⟨node, .inl found, isState⟩
    · exact ⟨Node.state name, .inr ⟨rfl, rfl⟩, isState_state name⟩
  · rintro ⟨node, found | ⟨rfl, _⟩, isState⟩
    · exact .inl ⟨node, found, isState⟩
    · exact .inr rfl

/-- Whether a graph is coherent is up to its pool alone. -/
theorem Coherent.of_pool {after : Tree} (coherent : tree.Coherent) (pool : after.pool = tree.pool)
    (created : after.created = tree.created) : after.Coherent := by
  rcases tree with ⟨_, _, _, _, _, _⟩
  rcases after with ⟨_, _, _, _, _, _⟩
  subst pool created
  exact ⟨coherent.ordered, coherent.bounded, coherent.closed, coherent.leaves, coherent.acyclic⟩

theorem Coherent.insertState (coherent : tree.Coherent) (name : String) :
    (tree.insertState name).Coherent :=
  (coherent.insert (show (Node.state name).edges = [] from rfl)).of_pool rfl rfl

/-- A tree that knows its states becomes rooted with one more. -/
theorem Coherent.rooted_insertState (coherent : tree.Coherent) (distinct : tree.states.Nodup)
    (states : ∀ id, id ∈ tree.states ↔ ∃ node, tree.get? id = some node ∧ node.isState = true)
    (name : String) : (tree.insertState name).Rooted where
  toCoherent := coherent.insertState name
  states_nonempty := List.append_ne_nil_of_right_ne_nil _ (List.cons_ne_nil _ _)
  states_distinct := by
    apply List.Nodup.append distinct (List.nodup_singleton _)
    intro id member next
    rw [List.mem_singleton] at next
    rcases (states id).mp member with ⟨node, found, _⟩
    simp [next, coherent.get?_nextId] at found
  mem_states := mem_states_insertState coherent states

theorem Rooted.insertState (rooted : tree.Rooted) (name : String) :
    (tree.insertState name).Rooted :=
  rooted.toCoherent.rooted_insertState rooted.states_distinct rooted.mem_states name

theorem Authored.insertState {name : String} (authored : tree.Authored)
    (fresh : tree.hasState name = false) : (tree.insertState name).Authored where
  toRooted := authored.toRooted.insertState name
  names_distinct := by
    have unshared {id : NodeId} {node : Node} (member : id ∈ tree.states)
        (found : tree.get? id = some node) : node.name ≠ name := by
      intro same
      exact Bool.eq_false_iff.mp fresh (hasState_iff.mpr ⟨id, member, node, found, same⟩)
    have cases {id : NodeId} {node : Node} (member : id ∈ (tree.insertState name).states)
        (found : (tree.insertState name).get? id = some node) :
        (id ∈ tree.states ∧ tree.get? id = some node) ∨ (id = tree.nextId ∧ node.name = name) := by
      rcases (get?_insertState_iff authored.toCoherent).mp found with old | ⟨rfl, rfl⟩
      · rcases List.mem_append.mp member with oldMember | new
        · exact .inl ⟨oldMember, old⟩
        · rw [List.mem_singleton] at new
          simp [new, authored.get?_nextId] at old
      · exact .inr ⟨rfl, rfl⟩
    intro id member other otherMember node otherNode found otherFound same
    rcases cases member found with ⟨oldMember, old⟩ | ⟨rfl, named⟩
    · rcases cases otherMember otherFound with ⟨oldOther, oldOtherFound⟩ | ⟨_, otherNamed⟩
      · exact authored.names_distinct id oldMember other oldOther node otherNode old oldOtherFound
          same
      · exact absurd (same.trans otherNamed) (unshared oldMember old)
    · rcases cases otherMember otherFound with ⟨oldOther, oldOtherFound⟩ | ⟨rfl, _⟩
      · exact absurd (same.symm.trans named) (unshared oldOther oldOtherFound)
      · rfl
  default_found := by
    rcases authored.default_found with ⟨id, member, state, found, named⟩
    exact ⟨id, List.mem_append_left _ member, state,
      (get?_insertState_iff authored.toCoherent).mpr (.inl found), named⟩
  single := by
    intro id node found decorator
    rcases (get?_insertState_iff authored.toCoherent).mp found with old | ⟨_, rfl⟩
    · exact authored.single id node old decorator
    · simp [Node.state]

/-! ## Fresh trees -/

theorem coherent_of_pool_eq_nil (empty : tree.pool = []) : tree.Coherent := by
  have nothing : ∀ id, tree.get? id = none := fun id => by rw [get?, empty]; rfl
  have noChild : ∀ parent child, ¬tree.IsChild parent child := by
    rintro parent child ⟨node, found, _⟩
    simp [nothing] at found
  exact {
    ordered := empty ▸ .nil
    bounded := by simp [empty, Pool.ids]
    closed := fun parent child step => absurd step (noChild parent child)
    leaves := fun id node found => by simp [nothing] at found
    acyclic := fun id cycle => by
      rcases TransGen.head'_iff.mp cycle with ⟨child, step, _⟩
      exact noChild id child step }

theorem authored_new (name : String) : (new name).Authored := by
  have empty : Tree.Coherent { name } := coherent_of_pool_eq_nil rfl
  have found : (new name).get? ⟨0⟩ = some (Node.state defaultStateName) := rfl
  have only {id : NodeId} {node : Node} (pooled : (new name).get? id = some node) :
      node = Node.state defaultStateName := by
    rcases (get?_insertState_iff empty).mp pooled with old | ⟨_, same⟩
    · cases old
    · exact same.symm
  exact {
    toRooted := empty.rooted_insertState .nil (fun _ => ⟨nofun, fun ⟨_, old, _⟩ => absurd old nofun⟩)
      defaultStateName
    names_distinct := by
      intro id member other otherMember _ _ _ _ _
      rw [List.mem_singleton.mp member, List.mem_singleton.mp otherMember]
    default_found := ⟨⟨0⟩, List.mem_singleton_self _, _, found, rfl⟩
    single := by
      intro id node pooled decorator
      rw [only pooled] at decorator
      cases decorator }

/-! ## Nodes that leave -/

/-- A part of a graph is coherent if no edge leads out of it. -/
theorem Coherent.of_part {after : Tree} (coherent : tree.Coherent)
    (ids : after.pool.ids.Sublist tree.pool.ids) (created : after.created = tree.created)
    (nodes : ∀ id newNode, after.get? id = some newNode → ∃ node, tree.get? id = some node ∧
      newNode.role = node.role ∧ newNode.edges.Sublist node.edges)
    (kept : ∀ parent child, after.IsChild parent child →
      after.get? child ≠ none) : after.Coherent where
  ordered := coherent.ordered.sublist ids
  bounded := fun id member => created ▸ coherent.bounded id (ids.subset member)
  closed := by
    intro parent child step
    rcases step with ⟨newNode, newFound, childMem⟩
    rcases nodes parent newNode newFound with ⟨node, found, _, edges⟩
    have oldMem : child ∈ node.children := (edges.map Edge.child).subset childMem
    rcases coherent.closed parent child ⟨node, found, oldMem⟩ with ⟨childNode, childFound, ordinary⟩
    rcases Option.ne_none_iff_exists'.mp (kept parent child ⟨newNode, newFound, childMem⟩)
      with ⟨newChild, newChildFound⟩
    rcases nodes child newChild newChildFound with ⟨oldChild, oldChildFound, same, _⟩
    rw [childFound, Option.some.injEq] at oldChildFound
    subst oldChildFound
    exact ⟨newChild, newChildFound, by simp_all [Node.role]⟩
  leaves := by
    intro id newNode newFound leaf
    rcases nodes id newNode newFound with ⟨node, found, same, edges⟩
    have noEdges := coherent.leaves id node found (by simp_all [Node.role])
    rw [noEdges] at edges
    exact List.sublist_nil.mp edges
  acyclic := by
    apply acyclic_of_subgraph coherent.acyclic
    rintro parent child ⟨newNode, newFound, childMem⟩
    rcases nodes parent newNode newFound with ⟨node, found, _, edges⟩
    exact ⟨node, found, (edges.map Edge.child).subset childMem⟩

theorem get?_withoutNode (tree : Tree) (id other : NodeId) :
    (tree.withoutNode id).get? other =
      if other = id then none else (tree.get? other).map fun node => node.detachedFrom id := by
  simp only [withoutNode, get?, Pool.get?_erase, Pool.get?_mapNodes]

theorem get?_withoutNode_eq_some {id other : NodeId} {newNode : Node}
    (found : (tree.withoutNode id).get? other = some newNode) :
    other ≠ id ∧ ∃ node, tree.get? other = some node ∧ newNode = node.detachedFrom id := by
  rw [get?_withoutNode] at found
  split at found
  · simp at found
  · next different =>
      rcases Option.map_eq_some_iff.mp found with ⟨node, oldFound, rfl⟩
      exact ⟨different, node, oldFound, rfl⟩

theorem get?_withoutNode_of_ne {id other : NodeId} {node : Node} (different : other ≠ id)
    (found : tree.get? other = some node) :
    (tree.withoutNode id).get? other = some (node.detachedFrom id) := by
  rw [get?_withoutNode, if_neg different, found, Option.map_some]

theorem ids_withoutNode (tree : Tree) (id : NodeId) :
    (tree.withoutNode id).pool.ids = tree.pool.ids.filter (· ≠ id) := by
  simp only [withoutNode, Pool.ids_erase, Pool.ids_mapNodes]

theorem mem_ids_withoutNode {id other : NodeId} :
    other ∈ (tree.withoutNode id).pool.ids ↔ other ∈ tree.pool.ids ∧ other ≠ id := by
  rw [ids_withoutNode, List.mem_filter, decide_eq_true_eq]

theorem ids_withoutNode_sublist (tree : Tree) (id : NodeId) :
    (tree.withoutNode id).pool.ids.Sublist tree.pool.ids := by
  rw [ids_withoutNode]
  exact List.filter_sublist

theorem Coherent.withoutNode (coherent : tree.Coherent) (id : NodeId) :
    (tree.withoutNode id).Coherent := by
  refine coherent.of_part (ids_withoutNode_sublist tree id) rfl ?_ ?_
  · intro other newNode newFound
    rcases get?_withoutNode_eq_some newFound with ⟨_, node, found, rfl⟩
    exact ⟨node, found, rfl, List.filter_sublist⟩
  · rintro parent child ⟨newNode, newFound, childMem⟩
    rcases get?_withoutNode_eq_some newFound with ⟨_, node, found, rfl⟩
    simp only [Node.children, Node.detachedFrom, List.mem_map, List.mem_filter, decide_eq_true_eq]
      at childMem
    rcases childMem with ⟨edge, ⟨edgeMem, different⟩, rfl⟩
    rcases coherent.closed parent edge.child ⟨node, found, List.mem_map_of_mem edgeMem⟩
      with ⟨child, childFound, _⟩
    simp [get?_withoutNode_of_ne different childFound]

theorem Rooted.withoutNode {id : NodeId} (rooted : tree.Rooted) (detached : ¬tree.IsReached id) :
    (tree.withoutNode id).Rooted where
  toCoherent := rooted.toCoherent.withoutNode id
  states_nonempty := rooted.states_nonempty
  states_distinct := rooted.states_distinct
  mem_states := by
    intro other
    change other ∈ tree.states ↔ _
    constructor
    · intro member
      have different : other ≠ id := by
        rintro rfl
        exact detached ⟨other, member, .refl⟩
      rcases (rooted.mem_states other).mp member with ⟨node, found, isState⟩
      exact ⟨_, get?_withoutNode_of_ne different found, isState⟩
    · rintro ⟨newNode, newFound, isState⟩
      rcases get?_withoutNode_eq_some newFound with ⟨_, node, found, rfl⟩
      exact (rooted.mem_states other).mpr ⟨node, found, isState⟩

theorem Authored.withoutNode {id : NodeId} (authored : tree.Authored)
    (detached : ¬tree.IsReached id) : (tree.withoutNode id).Authored where
  toRooted := authored.toRooted.withoutNode detached
  names_distinct := by
    intro first member second otherMember newNode newOther newFound newOtherFound same
    rcases get?_withoutNode_eq_some newFound with ⟨_, node, found, rfl⟩
    rcases get?_withoutNode_eq_some newOtherFound with ⟨_, otherNode, otherFound, rfl⟩
    exact authored.names_distinct first member second otherMember node otherNode found otherFound
      same
  default_found := by
    rcases authored.default_found with ⟨state, member, node, found, named⟩
    have different : state ≠ id := by
      rintro rfl
      exact detached ⟨state, member, .refl⟩
    exact ⟨state, member, _, get?_withoutNode_of_ne different found, named⟩
  single := by
    intro other newNode newFound decorator
    rcases get?_withoutNode_eq_some newFound with ⟨_, node, found, rfl⟩
    exact Nat.le_trans (List.length_filter_le _ _) (authored.single other node found decorator)

theorem get?_withoutState (tree : Tree) (id other : NodeId) (name : String) :
    (tree.withoutState id name).get? other = if other = id then none else tree.get? other := by
  simp only [withoutState, get?, Pool.get?_erase]

theorem get?_withoutState_eq_some {id other : NodeId} {name : String} {node : Node} :
    (tree.withoutState id name).get? other = some node ↔
      other ≠ id ∧ tree.get? other = some node := by
  rw [get?_withoutState]
  split
  · next same => simp [same]
  · next different => simp [different]

theorem ids_withoutState (tree : Tree) (id : NodeId) (name : String) :
    (tree.withoutState id name).pool.ids = tree.pool.ids.filter (· ≠ id) := by
  simp only [withoutState, Pool.ids_erase]

theorem mem_ids_withoutState {id other : NodeId} {name : String} :
    other ∈ (tree.withoutState id name).pool.ids ↔ other ∈ tree.pool.ids ∧ other ≠ id := by
  rw [ids_withoutState, List.mem_filter, decide_eq_true_eq]

theorem ids_withoutState_sublist (tree : Tree) (id : NodeId) (name : String) :
    (tree.withoutState id name).pool.ids.Sublist tree.pool.ids := by
  rw [ids_withoutState]
  exact List.filter_sublist

theorem Coherent.withoutState {id : NodeId} (coherent : tree.Coherent) (name : String)
    (state : ∃ node, tree.get? id = some node ∧ node.isState = true) :
    (tree.withoutState id name).Coherent := by
  refine coherent.of_part (ids_withoutState_sublist tree id name) rfl ?_ ?_
  · intro other node found
    exact ⟨node, (get?_withoutState_eq_some.mp found).2, rfl, .refl _⟩
  · rintro parent child ⟨node, found, childMem⟩
    rcases coherent.closed parent child ⟨node, (get?_withoutState_eq_some.mp found).2, childMem⟩
      with ⟨childNode, childFound, ordinary⟩
    have different : child ≠ id := by
      rintro rfl
      rcases state with ⟨stateNode, stateFound, isState⟩
      simp_all
    rw [get?_withoutState_eq_some.mpr ⟨different, childFound⟩]
    exact Option.some_ne_none _

theorem Rooted.withoutState {id : NodeId} (rooted : tree.Rooted) (name : String)
    (state : id ∈ tree.states) (others : tree.states.length ≠ 1) :
    (tree.withoutState id name).Rooted where
  toCoherent := rooted.toCoherent.withoutState name ((rooted.mem_states id).mp state)
  states_nonempty := by
    change tree.states.erase id ≠ []
    have positive := List.length_pos_iff.mpr rooted.states_nonempty
    rw [← List.length_pos_iff, List.length_erase_of_mem state]
    omega
  states_distinct := rooted.states_distinct.erase id
  mem_states := by
    intro other
    change other ∈ tree.states.erase id ↔ _
    rw [rooted.states_distinct.mem_erase_iff, rooted.mem_states]
    simp only [get?_withoutState_eq_some]
    constructor
    · rintro ⟨different, node, found, isState⟩
      exact ⟨node, ⟨different, found⟩, isState⟩
    · rintro ⟨node, ⟨different, found⟩, isState⟩
      exact ⟨different, node, found, isState⟩

/-- The fallback for the default state is the name of a state that stays. -/
theorem exists_firstStateName? (nonempty : tree.states ≠ [])
    (pooled : ∀ id ∈ tree.states, ∃ node, tree.get? id = some node) :
    ∃ id node, tree.states.head? = some id ∧ tree.get? id = some node ∧
      tree.firstStateName? = some node.name := by
  rcases states : tree.states with _ | ⟨first, rest⟩
  · exact absurd states nonempty
  · have member : first ∈ tree.states := states ▸ List.mem_cons_self
    rcases pooled first member with ⟨node, found⟩
    refine ⟨first, node, rfl, found, ?_⟩
    simp [firstStateName?, states, found]

theorem defaultState_withoutState_of_ne {id : NodeId} {name : String}
    (different : name ≠ tree.defaultState) :
    (tree.withoutState id name).defaultState = tree.defaultState :=
  if_neg different

/-- The default state moves on to the first state that is left. -/
theorem default_moved_withoutState {id : NodeId} {name : String}
    (nonempty : (tree.withoutState id name).states ≠ [])
    (pooled : ∀ state ∈ (tree.withoutState id name).states,
      ∃ node, (tree.withoutState id name).get? state = some node)
    (same : name = tree.defaultState) :
    ∃ first firstNode, (tree.withoutState id name).states.head? = some first ∧
      (tree.withoutState id name).get? first = some firstNode ∧
      (tree.withoutState id name).defaultState = firstNode.name := by
  have fallback : (tree.withoutState id name).defaultState =
      (tree.withoutState id name).firstStateName?.getD tree.defaultState := if_pos same
  rcases exists_firstStateName? nonempty pooled with ⟨first, firstNode, isFirst, found, named⟩
  refine ⟨first, firstNode, isFirst, found, ?_⟩
  rw [fallback, named, Option.getD_some]

/-- Where there was a default state, there is one when a state has been removed. -/
theorem default_found_withoutState {id : NodeId} {node : Node} (found : tree.get? id = some node)
    (distinct : tree.states.Nodup) (nonempty : (tree.withoutState id node.name).states ≠ [])
    (pooled : ∀ state ∈ (tree.withoutState id node.name).states,
      ∃ stateNode, (tree.withoutState id node.name).get? state = some stateNode)
    (known : tree.hasState tree.defaultState = true) :
    (tree.withoutState id node.name).hasState (tree.withoutState id node.name).defaultState =
      true := by
  rw [hasState_iff]
  by_cases same : node.name = tree.defaultState
  · rcases default_moved_withoutState nonempty pooled same
      with ⟨first, firstNode, isFirst, firstFound, named⟩
    exact ⟨first, List.mem_of_mem_head? isFirst, firstNode, firstFound, named.symm⟩
  · rcases hasState_iff.mp known with ⟨kept, member, keptNode, keptFound, named⟩
    have different : kept ≠ id := by
      rintro rfl
      rw [found, Option.some.injEq] at keptFound
      exact same (keptFound ▸ named)
    refine ⟨kept, distinct.mem_erase_iff.mpr ⟨different, member⟩, keptNode,
      get?_withoutState_eq_some.mpr ⟨different, keptFound⟩, ?_⟩
    rw [named, defaultState_withoutState_of_ne same]

theorem Authored.withoutState {id : NodeId} {node : Node} (authored : tree.Authored)
    (found : tree.get? id = some node) (state : id ∈ tree.states)
    (others : tree.states.length ≠ 1) : (tree.withoutState id node.name).Authored where
  toRooted := authored.toRooted.withoutState node.name state others
  names_distinct := by
    intro first member second otherMember firstNode secondNode firstFound secondFound
    exact authored.names_distinct first (List.mem_of_mem_erase member) second
      (List.mem_of_mem_erase otherMember) firstNode secondNode
      (get?_withoutState_eq_some.mp firstFound).2 (get?_withoutState_eq_some.mp secondFound).2
  default_found := by
    have rooted := authored.toRooted.withoutState node.name state others
    exact hasState_iff.mp <| default_found_withoutState found authored.states_distinct
      rooted.states_nonempty rooted.pooled (hasState_iff.mpr authored.default_found)
  single := by
    intro other otherNode otherFound
    exact authored.single other otherNode (get?_withoutState_eq_some.mp otherFound).2

/-! ## Nodes with other properties -/

theorem map_name_modify (tree : Tree) (id : NodeId) (change : Node → Node)
    (name : ∀ node, (change node).name = node.name) (other : NodeId) :
    ((tree.modify id change).get? other).map Node.name = (tree.get? other).map Node.name := by
  rw [get?_modify, Option.map_map]
  refine Option.map_congr fun node _ => ?_
  simp only [Function.comp_apply]
  split
  · exact name node
  · rfl

theorem map_name_mapEdges (tree : Tree) (change : Edge → Edge) (id : NodeId) :
    (Tree.get? { tree with pool := tree.pool.mapEdges change } id).map Node.name =
      (tree.get? id).map Node.name := by
  simp only [get?, Pool.get?_mapEdges, Option.map_map]
  rfl

theorem Restyles.rooted {after : Tree} (restyles : tree.Restyles after) (rooted : tree.Rooted) :
    after.Rooted :=
  restyles.toInPlace.rooted rooted (restyles.coherent rooted.toCoherent)

theorem Restyles.authored {after : Tree} (restyles : tree.Restyles after)
    (authored : tree.Authored)
    (names : ∀ id, (after.get? id).map Node.name = (tree.get? id).map Node.name)
    (defaultState : after.defaultState = tree.defaultState) : after.Authored :=
  restyles.toInPlace.authored authored (restyles.coherent authored.toCoherent) names defaultState
    (restyles.single authored)

theorem role_withParameters (node : Node) (definitions : ParameterSet) :
    (node.withParameters definitions).role = node.role := by
  rcases node with ⟨_, _, _, _, _ | _ | _ | _ | _, _⟩ <;> rfl

theorem role_withProperty (node : Node) (property : Property) :
    (node.withProperty property).role = node.role := by
  rcases node with ⟨_, _, _, _, _ | _ | _ | _ | _, _⟩ <;> cases property <;> rfl

theorem role_composite {node : Node} {current composite : Composite}
    (kind : node.kind = .composite current) (same : current.isState = composite.isState) :
    ({ node with kind := .composite composite } : Node).role = node.role := by
  simp [Node.role, Node.isState, Node.isLeaf, NodeKind.isState, NodeKind.isLeaf,
    NodeKind.isDecorator, kind, same]

/-- What holds of a node and is kept by every free property is kept by several. -/
theorem foldl_withProperty {α : Type} (part : Node → α)
    (kept : ∀ node property, part (Node.withProperty node property) = part node)
    (properties : List Property) (node : Node) :
    part (properties.foldl Node.withProperty node) = part node := by
  induction properties generalizing node with
  | nil => rfl
  | cons property properties ih => exact (ih _).trans (kept node property)

theorem name_withProperty (node : Node) (property : Property) :
    (node.withProperty property).name = node.name := by
  cases property <;> rfl

theorem edges_withProperty (node : Node) (property : Property) :
    (node.withProperty property).edges = node.edges := by
  cases property <;> rfl

theorem restyles_withName {id : NodeId} (node : Node) (name : String) :
    tree.Restyles (tree.withName id node name) := by
  have renamed : tree.Restyles (tree.modify id fun node => { node with name }) :=
    Restyles.modify tree id (fun _ _ => rfl) fun _ => rfl
  exact renamed.trans (Restyles.of_pool rfl rfl rfl)

theorem get?_withName (tree : Tree) (id other : NodeId) (node : Node) (name : String) :
    (tree.withName id node name).get? other =
      (tree.get? other).map fun node => if other = id then { node with name } else node :=
  get?_modify tree id other fun node => { node with name }

/-- A state that takes a name of its own keeps the names of the states apart, and the default state
follows it. -/
theorem Authored.withName {id : NodeId} {node : Node} {name : String} (authored : tree.Authored)
    (found : tree.get? id = some node)
    (unshared : id ∈ tree.states → ∀ other, tree.state? name = some other → other = id) :
    (tree.withName id node name).Authored where
  toRooted := (restyles_withName node name).rooted authored.toRooted
  names_distinct := by
    have alone {other : NodeId} {otherNode : Node} (isState : id ∈ tree.states)
        (member : other ∈ tree.states) (otherFound : tree.get? other = some otherNode)
        (named : otherNode.name = name) : other = id := by
      rcases Option.isSome_iff_exists.mp (hasState_iff.mpr ⟨other, member, _, otherFound, named⟩)
        with ⟨first, firstFound⟩
      rcases state?_eq_some firstFound with ⟨firstMember, firstNode, firstPooled, firstNamed⟩
      have same := authored.names_distinct other member first firstMember otherNode firstNode
        otherFound firstPooled (named.trans firstNamed.symm)
      rw [same]
      exact unshared isState first firstFound
    intro first member second otherMember newFirst newSecond newFirstFound newSecondFound same
    rw [get?_withName] at newFirstFound newSecondFound
    rcases Option.map_eq_some_iff.mp newFirstFound with ⟨firstNode, firstFound, rfl⟩
    rcases Option.map_eq_some_iff.mp newSecondFound with ⟨secondNode, secondFound, rfl⟩
    by_cases isFirst : first = id
    · by_cases isSecond : second = id
      · rw [isFirst, isSecond]
      · rw [if_pos isFirst, if_neg isSecond] at same
        exact absurd (alone (isFirst ▸ member) otherMember secondFound same.symm) isSecond
    · by_cases isSecond : second = id
      · rw [if_neg isFirst, if_pos isSecond] at same
        exact absurd (alone (isSecond ▸ otherMember) member firstFound same) isFirst
      · rw [if_neg isFirst, if_neg isSecond] at same
        exact authored.names_distinct first member second otherMember firstNode secondNode
          firstFound secondFound same
  default_found := by
    rcases authored.default_found with ⟨state, member, stateNode, stateFound, named⟩
    refine ⟨state, member, if state = id then { stateNode with name } else stateNode, ?_, ?_⟩
    · rw [get?_withName, stateFound, Option.map_some]
    · simp only [Tree.withName]
      by_cases isState : state = id
      · subst isState
        rw [found, Option.some.injEq] at stateFound
        subst stateFound
        simp [member, named]
      · have kept : ¬(id ∈ tree.states ∧ tree.defaultState = node.name) := by
          rintro ⟨isMember, follows⟩
          exact isState (authored.names_distinct state member id isMember stateNode node
            stateFound found (named.trans follows))
        simp [isState, kept, named]
  single := by
    intro other newNode newFound decorator
    rcases (restyles_withName node name).node newFound with ⟨otherNode, otherFound, _⟩
    exact (restyles_withName node name).single authored other otherNode newNode otherFound
      newFound decorator

theorem restyles_header (tree : Tree) (name defaultState : String) (expandMethods : Bool) :
    tree.Restyles { tree with name, defaultState, expandMethods } :=
  .of_pool rfl rfl rfl

theorem restyles_setWeight (tree : Tree) (id : NodeId) (weight : Single) :
    tree.Restyles (tree.modify id fun node => { node with weight }) :=
  Restyles.modify tree id (fun _ _ => rfl) fun _ => rfl

theorem restyles_setComposite {id : NodeId} {node : Node} {current composite : Composite}
    (found : tree.get? id = some node) (kind : node.kind = .composite current)
    (same : current.isState = composite.isState) :
    tree.Restyles (tree.modify id fun node => { node with kind := .composite composite }) := by
  refine Restyles.modify tree id ?_ fun _ => rfl
  intro other otherFound
  rw [found, Option.some.injEq] at otherFound
  exact otherFound ▸ role_composite kind same

theorem restyles_withParameters (tree : Tree) (id : NodeId) (definitions : ParameterSet) :
    tree.Restyles (tree.modify id fun node => node.withParameters definitions) :=
  Restyles.modify tree id (fun node _ => role_withParameters node definitions) fun _ => rfl

theorem restyles_withProperties (tree : Tree) (id : NodeId) (properties : List Property) :
    tree.Restyles (tree.modify id fun node => properties.foldl Node.withProperty node) := by
  refine Restyles.modify tree id
    (fun node _ => foldl_withProperty Node.role role_withProperty properties node) fun node => ?_
  refine foldl_withProperty Node.children (fun node property => ?_) properties node
  rw [Node.children, edges_withProperty, Node.children]

theorem get?_refitted (tree : Tree) (id other : NodeId) :
    (tree.refitted id).get? other = (tree.get? other).map fun node =>
      { node with
        edges := node.edges.map fun edge =>
          if edge.child = id then
            { edge with bindings := tree.fitBindings id edge.bindings }
          else edge } :=
  tree.pool.get?_mapEdges _ other

theorem restyles_refitted (tree : Tree) (id : NodeId) : tree.Restyles (tree.refitted id) := by
  refine Restyles.mapEdges tree fun edge => ?_
  split <;> rfl

theorem restyles_withDefinitions (tree : Tree) (id : NodeId) (definitions : ParameterSet) :
    tree.Restyles (tree.withDefinitions id definitions) :=
  (restyles_withParameters tree id definitions).trans (restyles_refitted _ id)

theorem restyles_matchParameters (tree : Tree) : tree.Restyles tree.matchParameters :=
  Restyles.mapEdges tree fun _ => rfl

theorem map_name_withDefinitions (tree : Tree) (id : NodeId) (definitions : ParameterSet)
    (other : NodeId) :
    ((tree.withDefinitions id definitions).get? other).map Node.name =
      (tree.get? other).map Node.name :=
  (map_name_mapEdges _ _ other).trans <|
    map_name_modify tree id (fun node => node.withParameters definitions) (fun _ => rfl) other

/-! ## Nodes with other edges -/

theorem get?_withEdges (tree : Tree) (id other : NodeId) (change : List Edge → List Edge) :
    (tree.withEdges id change).get? other = (tree.get? other).map fun node =>
      if other = id then { node with edges := change node.edges } else node :=
  get?_modify tree id other fun node => { node with edges := change node.edges }

theorem get?_withEdges_self {id : NodeId} {node : Node} (found : tree.get? id = some node)
    (change : List Edge → List Edge) :
    (tree.withEdges id change).get? id = some (node.withEdges (change node.edges)) := by
  rw [get?_withEdges, found, Option.map_some, if_pos rfl]
  rfl

theorem get?_withEdges_of_ne {id other : NodeId} (different : other ≠ id)
    (change : List Edge → List Edge) : (tree.withEdges id change).get? other = tree.get? other := by
  rw [get?_withEdges]
  refine (Option.map_congr fun node _ => ?_).trans Option.map_id'
  rw [if_neg different]

theorem inPlace_withEdges (tree : Tree) (id : NodeId) (change : List Edge → List Edge) :
    tree.InPlace (tree.withEdges id change) :=
  InPlace.modify tree id fun _ _ => rfl

theorem isChild_withEdges {id parent child : NodeId} {change : List Edge → List Edge}
    (step : (tree.withEdges id change).IsChild parent child) :
    tree.IsChild parent child ∨ (parent = id ∧ ∃ node, tree.get? id = some node ∧
      child ∈ (change node.edges).map Edge.child) := by
  rcases step with ⟨newNode, newFound, childMem⟩
  rw [get?_withEdges] at newFound
  rcases Option.map_eq_some_iff.mp newFound with ⟨node, found, rfl⟩
  by_cases same : parent = id
  · rw [if_pos same] at childMem
    exact .inr ⟨same, node, same ▸ found, childMem⟩
  · rw [if_neg same] at childMem
    exact .inl ⟨node, found, childMem⟩

theorem Coherent.withEdges_of_subset {id : NodeId} {change : List Edge → List Edge}
    (coherent : tree.Coherent)
    (subset : ∀ node, tree.get? id = some node → ∀ edge ∈ change node.edges,
      ∃ old ∈ node.edges, old.child = edge.child) : (tree.withEdges id change).Coherent := by
  apply (inPlace_withEdges tree id change).coherent_of_subgraph coherent
  intro parent child step
  rcases isChild_withEdges step with old | ⟨rfl, node, found, childMem⟩
  · exact old
  · rcases List.mem_map.mp childMem with ⟨edge, edgeMem, rfl⟩
    rcases subset node found edge edgeMem with ⟨old, oldMem, same⟩
    exact ⟨node, found, List.mem_map.mpr ⟨old, oldMem, same⟩⟩

theorem Coherent.withEdges_of_new {id new : NodeId} {change : List Edge → List Edge}
    (coherent : tree.Coherent)
    (edges : ∀ node, tree.get? id = some node → ∀ edge ∈ change node.edges,
      edge ∈ node.edges ∨ edge.child = new)
    (fit : tree.Fit id new) (notSame : id ≠ new) (notAbove : ¬TransGen tree.IsChild new id) :
    (tree.withEdges id change).Coherent := by
  refine (inPlace_withEdges tree id change).coherent_of_new_edge coherent ?_ fit notSame notAbove
  intro parent child step
  rcases isChild_withEdges step with old | ⟨rfl, node, found, childMem⟩
  · exact .inl old
  · rcases List.mem_map.mp childMem with ⟨edge, edgeMem, rfl⟩
    rcases edges node found edge edgeMem with old | same
    · exact .inl ⟨node, found, List.mem_map_of_mem old⟩
    · exact .inr ⟨rfl, same⟩

theorem Authored.withEdges {id : NodeId} {change : List Edge → List Edge}
    (authored : tree.Authored) (coherent : (tree.withEdges id change).Coherent)
    (single : ∀ node, tree.get? id = some node → node.kind.isDecorator = true →
      (change node.edges).length ≤ 1) : (tree.withEdges id change).Authored := by
  refine (inPlace_withEdges tree id change).authored authored coherent
    (map_name_modify tree id (fun node => { node with edges := change node.edges }) fun _ => rfl)
    rfl ?_
  intro other node newNode found newFound decorator
  rw [get?_withEdges, found, Option.map_some, Option.some.injEq] at newFound
  subst newFound
  by_cases same : other = id
  · subst same
    simp only [↓reduceIte] at decorator ⊢
    exact single node found decorator
  · simp only [same, ↓reduceIte] at decorator ⊢
    exact authored.single other node found decorator

/-! ### Attaching and replacing -/

theorem Attachable.fit {editing : Bool} {parentId childId : NodeId} {parent child : Node}
    {position : Nat}
    (attachable : tree.Attachable editing parentId parent childId child position) :
    tree.Fit parentId childId :=
  ⟨⟨parent, attachable.parent_found, attachable.not_leaf⟩,
    ⟨child, attachable.child_found, attachable.not_state⟩⟩

theorem Attachable.coherent {editing : Bool} {parentId childId : NodeId} {parent child : Node}
    {position : Nat} {bindings : ParameterSet} (coherent : tree.Coherent)
    (attachable : tree.Attachable editing parentId parent childId child position) :
    (tree.insertEdge parentId position ⟨childId, bindings⟩).Coherent := by
  refine coherent.withEdges_of_new ?_ attachable.fit attachable.not_same
    attachable.not_above
  intro node _ edge edgeMem
  rcases List.eq_or_mem_of_mem_insertIdx edgeMem with rfl | old
  · exact .inr rfl
  · exact .inl old

/-- What an editor attaches leaves no decorator with two children. -/
theorem Attachable.authored {parentId childId : NodeId} {parent child : Node} {position : Nat}
    {bindings : ParameterSet} (authored : tree.Authored)
    (attachable : tree.Attachable true parentId parent childId child position) :
    (tree.insertEdge parentId position ⟨childId, bindings⟩).Authored := by
  apply authored.withEdges (attachable.coherent authored.toCoherent)
  intro node found decorator
  rw [attachable.parent_found, Option.some.injEq] at found
  subst found
  rw [attachable.vacant rfl decorator]
  exact Nat.le_trans List.length_insertIdx_le_succ (Nat.le_refl 1)

theorem mem_modify {edges : List Edge} {index : Nat} {change : Edge → Edge} {edge : Edge}
    (member : edge ∈ edges.modify index change) :
    edge ∈ edges ∨ ∃ old ∈ edges, edge = change old := by
  rcases List.mem_iff_getElem?.mp member with ⟨place, found⟩
  rw [List.getElem?_modify] at found
  rcases Option.map_eq_some_iff.mp found with ⟨old, oldFound, rfl⟩
  have oldMem := List.mem_of_getElem? oldFound
  split
  · exact .inr ⟨old, oldMem, rfl⟩
  · exact .inl oldMem

theorem Coherent.replaceChild {id new : NodeId} {node child : Node} {index : Nat}
    (coherent : tree.Coherent) (found : tree.get? id = some node)
    (inner : node.isLeaf = false) (childFound : tree.get? new = some child)
    (ordinary : child.isState = false) (notSame : id ≠ new)
    (notAbove : ¬TransGen tree.IsChild new id) :
    (tree.withEdges id fun edges =>
      edges.modify index fun edge => ⟨new, tree.fitBindings new edge.bindings⟩).Coherent := by
  refine coherent.withEdges_of_new ?_ ⟨⟨node, found, inner⟩, ⟨child, childFound, ordinary⟩⟩ notSame
    notAbove
  intro other _ edge edgeMem
  rcases mem_modify edgeMem with old | ⟨old, _, rfl⟩
  · exact .inl old
  · exact .inr rfl

/-- A node with an edge to a child is no leaf. -/
theorem Coherent.not_leaf_of_indexOf? {id child : NodeId} {node : Node} {index : Nat}
    (coherent : tree.Coherent) (found : tree.get? id = some node)
    (position : node.indexOf? child = some index) : node.isLeaf = false := by
  by_contra leaf
  rw [Bool.not_eq_false] at leaf
  simp [Node.indexOf?, coherent.leaves id node found leaf] at position

theorem Coherent.removeEdge {id : NodeId} (coherent : tree.Coherent) (index : Nat) :
    (tree.withEdges id fun edges => edges.eraseIdx index).Coherent :=
  coherent.withEdges_of_subset fun _ _ edge edgeMem =>
    ⟨edge, List.mem_of_mem_eraseIdx edgeMem, rfl⟩

theorem Coherent.moveEdge {id : NodeId} {node : Node} {origin destination : Nat} {edge : Edge}
    (coherent : tree.Coherent) (found : tree.get? id = some node)
    (edgeFound : node.edges[origin]? = some edge) :
    (tree.withEdges id fun edges =>
      (edges.eraseIdx origin).insertIdx destination edge).Coherent := by
  apply coherent.withEdges_of_subset
  intro other otherFound moved movedMem
  rw [found, Option.some.injEq] at otherFound
  subst otherFound
  rcases List.eq_or_mem_of_mem_insertIdx movedMem with rfl | old
  · exact ⟨moved, List.mem_of_getElem? edgeFound, rfl⟩
  · exact ⟨moved, List.mem_of_mem_eraseIdx old, rfl⟩

theorem restyles_setBinding (tree : Tree) (id : NodeId) (index : Nat) (name value : String) :
    tree.Restyles (tree.withEdges id fun edges => edges.modify index fun edge =>
      { edge with bindings := edge.bindings.assign name value }) := by
  refine Restyles.modify tree id (fun _ _ => rfl) fun node => ?_
  apply List.ext_getElem?
  intro place
  simp only [Node.children, List.getElem?_map, List.getElem?_modify, Option.map_eq_map,
    Option.map_map]
  refine Option.map_congr fun edge _ => ?_
  simp only [Function.comp_apply]
  split <;> rfl

end Tree

end BehaviorTree
