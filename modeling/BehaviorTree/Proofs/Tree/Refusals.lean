import BehaviorTree.Proofs.Tree.Fitting

/-!
# Refused edits

A refused edit leaves the tree as it was, with one exception: a state that is listed and not pooled
leaves the list before its removal is refused.  As long as the states are pooled and listed once,
this does not come up, and whatever an edit looks for after its checks is there.  Edits keep the
states like this, even if they add nodes that bring edges with them.

A builder may be told to list a state twice.  When such a state is removed, it stays listed.  The
graph stays coherent all the same, and its bindings stay in step.
-/

namespace BehaviorTree

open Relation

variable {tree after : Tree} {edit : Edit} {answer : Answer}

/-! ## Order in the pool -/

namespace Tree

/-- The pool is in the order of creation, and there are states, all of them pooled and listed once.
-/
structure Orderly (tree : Tree) : Prop where
  ordered : tree.pool.ids.Pairwise (·.index < ·.index)
  bounded : ∀ id ∈ tree.pool.ids, id.index < tree.created
  pooled : ∀ id ∈ tree.states, id ∈ tree.pool.ids
  distinct : tree.states.Nodup
  nonempty : tree.states ≠ []

theorem Rooted.orderly (rooted : tree.Rooted) : tree.Orderly where
  ordered := rooted.ordered
  bounded := rooted.bounded
  pooled := fun id member => Pool.mem_ids_iff.mpr (rooted.pooled id member)
  distinct := rooted.states_distinct
  nonempty := rooted.states_nonempty

namespace Orderly

theorem nextId_not_mem (orderly : tree.Orderly) : tree.nextId ∉ tree.pool.ids := by
  intro member
  exact Nat.lt_irrefl _ (orderly.bounded _ member)

theorem insert (orderly : tree.Orderly) (node : Node) : (tree.insert node).Orderly where
  ordered := ordered_insert node orderly.ordered orderly.bounded
  bounded := bounded_insert node orderly.bounded
  pooled := by
    intro id member
    rw [ids_insert]
    exact List.mem_append_left _ (orderly.pooled id member)
  distinct := orderly.distinct
  nonempty := orderly.nonempty

theorem insertState (orderly : tree.Orderly) (name : String) : (tree.insertState name).Orderly where
  ordered := (orderly.insert (Node.state name)).ordered
  bounded := (orderly.insert (Node.state name)).bounded
  pooled := by
    intro id member
    change id ∈ (tree.insert (Node.state name)).pool.ids
    rw [ids_insert]
    rcases List.mem_append.mp member with old | new
    · exact List.mem_append_left _ (orderly.pooled id old)
    · exact List.mem_append_right _ new
  distinct := by
    apply List.Nodup.append orderly.distinct (List.nodup_singleton _)
    intro id member new
    rw [List.mem_singleton] at new
    exact orderly.nextId_not_mem (new ▸ orderly.pooled id member)
  nonempty := List.append_ne_nil_of_right_ne_nil _ (List.cons_ne_nil _ _)

theorem withoutNode {id : NodeId} (orderly : tree.Orderly) (detached : ¬tree.IsReached id) :
    (tree.withoutNode id).Orderly where
  ordered := orderly.ordered.sublist (ids_withoutNode_sublist tree id)
  bounded := by
    intro other member
    exact orderly.bounded other ((ids_withoutNode_sublist tree id).subset member)
  pooled := by
    intro other member
    have different : other ≠ id := by
      rintro rfl
      exact detached ⟨other, member, .refl⟩
    exact mem_ids_withoutNode.mpr ⟨orderly.pooled other member, different⟩
  distinct := orderly.distinct
  nonempty := orderly.nonempty

theorem withoutState {id : NodeId} (orderly : tree.Orderly) (name : String)
    (state : id ∈ tree.states) (others : tree.states.length ≠ 1) :
    (tree.withoutState id name).Orderly where
  ordered := orderly.ordered.sublist (ids_withoutState_sublist tree id name)
  bounded := by
    intro other member
    exact orderly.bounded other ((ids_withoutState_sublist tree id name).subset member)
  pooled := by
    intro other member
    rcases orderly.distinct.mem_erase_iff.mp member with ⟨different, old⟩
    exact mem_ids_withoutState.mpr ⟨orderly.pooled other old, different⟩
  distinct := orderly.distinct.erase id
  nonempty := by
    change tree.states.erase id ≠ []
    have positive := List.length_pos_iff.mpr orderly.nonempty
    rw [← List.length_pos_iff, List.length_erase_of_mem state]
    omega

theorem of_inPlace (orderly : tree.Orderly) (inPlace : tree.InPlace after) : after.Orderly where
  ordered := inPlace.ids ▸ orderly.ordered
  bounded := inPlace.ids ▸ inPlace.created ▸ orderly.bounded
  pooled := inPlace.ids ▸ inPlace.states ▸ orderly.pooled
  distinct := inPlace.states ▸ orderly.distinct
  nonempty := inPlace.states ▸ orderly.nonempty

theorem reshaped (orderly : tree.Orderly) (reshapes : edit.Reshapes tree after) :
    after.Orderly := by
  cases reshapes with
  | inPlace inPlace => exact orderly.of_inPlace inPlace
  | insert ordinary => exact orderly.insert _
  | withoutNode detached => exact orderly.withoutNode detached
  | insertState => exact orderly.insertState _
  | withoutState found state others => exact orderly.withoutState _ state others

theorem nodup_ids (orderly : tree.Orderly) : tree.pool.ids.Nodup := by
  apply orderly.ordered.imp
  rintro id _ smaller rfl
  exact Nat.lt_irrefl _ smaller

theorem exists_get? (orderly : tree.Orderly) :
    ∀ id ∈ tree.states, ∃ node, tree.get? id = some node := by
  intro id member
  exact Pool.mem_ids_iff.mp (orderly.pooled id member)

end Orderly

end Tree

namespace Edit

theorem orderly_applyAll (edits : List Edit) (orderly : tree.Orderly) :
    (applyAll edits tree).Orderly := by
  have kept : ∀ (before : Tree) (edit : Edit), before.Orderly → True →
      (edit.apply before).2.Orderly := by
    intro before edit orderly _
    rcases edit.apply_cases orderly.exists_get?
      with ⟨refusal, refused⟩ | ⟨answer, after, done, accepted⟩
    · simpa only [refused] using orderly
    · simpa only [done] using orderly.reshaped accepted.reshapes
  exact applyAll_induction kept edits (fun _ _ => trivial) orderly

/-! ## Nothing half done -/

theorem eq_of_refused (orderly : tree.Orderly) {refusal : EditError}
    (refused : edit.apply tree = (.error refusal, after)) : after = tree := by
  rcases edit.apply_cases orderly.exists_get? with ⟨_, unchanged⟩ | ⟨_, _, done, _⟩
  · exact (congrArg Prod.snd (refused.symm.trans unchanged))
  · cases congrArg Prod.fst (refused.symm.trans done)

/-- A state that is removed is never missed. -/
theorem removeState_ne_unknownNode (orderly : tree.Orderly) (id missing : NodeId) :
    ((removeState id).apply tree).1 ≠ .error (.unknownNode missing) := by
  intro refused
  have run : (removeState id).apply tree = _ := Editing.run_removeState id tree
  rw [run] at refused
  split at refused
  · cases refused
  next state =>
  rw [not_not] at state
  rcases orderly.exists_get? id state with ⟨node, found⟩
  rw [found] at refused
  split at refused <;> cases refused

/-- A node that is deleted is missed before anything is changed, or not at all. -/
theorem get?_eq_none_of_deleteNode {id missing : NodeId}
    (refused : ((deleteNode id).apply tree).1 = .error (.unknownNode missing)) :
    tree.get? id = none := by
  have run : (deleteNode id).apply tree = _ := Editing.run_deleteNode id tree
  rw [run] at refused
  split at refused
  · assumption
  · split at refused <;> cases refused

end Edit

/-! ## Places in range -/

/-- A child that can be attached gets a position among the edges of its parent, or after them. -/
def Tree.AttachesInRange (tree : Tree) (parentId : NodeId) (index : Option Nat) (child : NodeId) :
    Prop :=
  ∀ position, tree.attachPosition true parentId index child = .ok position →
    ∃ parent, tree.get? parentId = some parent ∧ position ≤ parent.edges.length

/-- What an edit looks for once its checks have passed is there: a node that it takes out of the
pool, the state that becomes the default, and the positions at which it reads, removes and inserts
edges. -/
def Edit.InRange (tree : Tree) : Edit → Prop
  | .deleteNode id =>
      ∀ node, tree.get? id = some node → tree.isInHierarchy id = false →
        ∃ emptied, Tree.get?
          { tree with pool := tree.pool.mapNodes fun other => other.detachedFrom id } id =
            some emptied
  | .removeState id =>
      id ∈ tree.states → tree.states.length ≠ 1 →
        (∃ node, Tree.get? { tree with states := tree.states.erase id } id = some node) ∧
        ∃ fallback node, (tree.states.erase id)[0]? = some fallback ∧
          (tree.pool.erase id).get? fallback = some node
  | .addChild parent child _ => tree.AttachesInRange parent none child
  | .insertChild parent index child _ => tree.AttachesInRange parent (some index) child
  | .removeChild parentId child =>
      ∀ parent index, tree.get? parentId = some parent → parent.indexOf? child = some index →
        index < parent.edges.length
  | .moveChild parentId origin destination =>
      ∀ parent, tree.get? parentId = some parent → origin < parent.edges.length →
        destination < parent.edges.length →
        destination ≤ (parent.edges.eraseIdx origin).length
  | .replaceChild parentId old _ =>
      ∀ parent index, tree.get? parentId = some parent → parent.indexOf? old = some index →
        index < parent.edges.length
  | _ => True

theorem Node.lt_of_indexOf? {node : Node} {child : NodeId} {index : Nat}
    (position : node.indexOf? child = some index) : index < node.edges.length := by
  rw [Node.indexOf?, List.findIdx?_eq_some_iff_getElem] at position
  exact position.1

theorem Tree.attachesInRange (tree : Tree) (parentId : NodeId) (index : Option Nat)
    (child : NodeId) : tree.AttachesInRange parentId index child := by
  intro position accepted
  rcases attachPosition_eq_ok_iff.mp accepted with ⟨parent, _, attachable, _⟩
  exact ⟨parent, attachable.parent_found, attachable.in_range⟩

theorem Tree.Orderly.fallback {id : NodeId} (orderly : tree.Orderly)
    (state : id ∈ tree.states) (others : tree.states.length ≠ 1) :
    ∃ fallback node, (tree.states.erase id)[0]? = some fallback ∧
      (tree.pool.erase id).get? fallback = some node := by
  have rest := orderly.withoutState "" state others
  rcases left : tree.states.erase id with _ | ⟨fallback, _⟩
  · exact absurd left rest.nonempty
  · have member : fallback ∈ tree.states.erase id := left ▸ List.mem_cons_self
    rcases rest.exists_get? fallback member with ⟨node, found⟩
    exact ⟨fallback, node, rfl, found⟩

theorem Edit.inRange (orderly : tree.Orderly) (edit : Edit) : edit.InRange tree := by
  cases edit with
  | deleteNode id =>
      intro node found _
      exact ⟨node.detachedFrom id, by simp_all [Tree.get?]⟩
  | removeState id =>
      intro state others
      exact ⟨orderly.exists_get? id state, orderly.fallback state others⟩
  | addChild parent child _ => exact tree.attachesInRange parent none child
  | insertChild parent index child _ => exact tree.attachesInRange parent (some index) child
  | removeChild parentId child =>
      intro parent index _ position
      exact Node.lt_of_indexOf? position
  | moveChild parentId origin destination =>
      intro parent _ originInside destinationInside
      have shorter := List.length_eraseIdx_of_lt originInside
      omega
  | replaceChild parentId old _ =>
      intro parent index _ position
      exact Node.lt_of_indexOf? position
  | _ => trivial

/-! ## States listed twice -/

/-- A coherent graph whose listed states have been created, and are states while they are pooled. -/
structure Tree.Anchored (tree : Tree) : Prop extends tree.Coherent where
  states_created : ∀ id ∈ tree.states, id.index < tree.created
  states_kind : ∀ id ∈ tree.states, ∀ node, tree.get? id = some node → node.isState = true

theorem Edit.Accepted.anchored (accepted : edit.Accepted tree answer after) (bare : edit.IsBare)
    (anchored : tree.Anchored) : after.Anchored := by
  have coherent := accepted.coherent bare anchored.toCoherent anchored.states_kind
  cases accepted.reshapes with
  | inPlace inPlace =>
      refine ⟨coherent, inPlace.states ▸ inPlace.created ▸ anchored.states_created, ?_⟩
      intro id member newNode newFound
      rcases inPlace.node newFound with ⟨node, found, same⟩
      have isState := anchored.states_kind id (inPlace.states ▸ member) node found
      simp_all [Node.role]
  | insert ordinary =>
      refine ⟨coherent, fun id member => Nat.lt_succ_of_lt (anchored.states_created id member), ?_⟩
      intro id member node found
      -- No listed state has the identity of the new node, not even one that has left the pool.
      have created := anchored.states_created id member
      rcases (Tree.get?_insert_iff anchored.toCoherent).mp found with old | ⟨rfl, _⟩
      · exact anchored.states_kind id member node old
      · exact absurd created (Nat.lt_irrefl _)
  | withoutNode detached =>
      refine ⟨coherent, anchored.states_created, ?_⟩
      intro id member newNode newFound
      rcases Tree.get?_withoutNode_eq_some newFound with ⟨_, node, found, rfl⟩
      exact anchored.states_kind id member node found
  | insertState =>
      refine ⟨coherent, ?_, ?_⟩
      · intro id member
        rcases List.mem_append.mp member with old | new
        · exact Nat.lt_succ_of_lt (anchored.states_created id old)
        · rw [List.mem_singleton.mp new]
          exact Nat.lt_succ_self _
      · intro id member node found
        rcases (Tree.get?_insertState_iff anchored.toCoherent).mp found with old | ⟨_, rfl⟩
        · rcases List.mem_append.mp member with oldMember | new
          · exact anchored.states_kind id oldMember node old
          · rw [List.mem_singleton.mp new, anchored.get?_nextId] at old
            cases old
        · exact Tree.isState_state _
  | withoutState found state others =>
      refine ⟨coherent, ?_, ?_⟩
      · intro id member
        exact anchored.states_created id (List.mem_of_mem_erase member)
      · intro id member node stillFound
        exact anchored.states_kind id (List.mem_of_mem_erase member) node
          (Tree.get?_withoutState_eq_some.mp stillFound).2

theorem Tree.Anchored.withoutListing (anchored : tree.Anchored) (id : NodeId) :
    Tree.Anchored { tree with states := tree.states.erase id } where
  toCoherent := anchored.toCoherent.of_pool rfl rfl
  states_created := fun other member =>
    anchored.states_created other (List.mem_of_mem_erase member)
  states_kind := fun other member =>
    anchored.states_kind other (List.mem_of_mem_erase member)

/-- Bindings stay in step in every run, even where states are listed that are not pooled. -/
theorem Edit.anchored_applyAll (edits : List Edit) (bare : ∀ edit ∈ edits, edit.IsBare)
    (anchored : tree.Anchored) (fitted : tree.Fitted) :
    (applyAll edits tree).Anchored ∧ (applyAll edits tree).Fitted := by
  have kept : ∀ (before : Tree) (edit : Edit), before.Anchored ∧ before.Fitted → edit.IsBare →
      (edit.apply before).2.Anchored ∧ (edit.apply before).2.Fitted := by
    rintro before edit ⟨anchored, fitted⟩ bare
    rcases edit.apply_cases_of_any before
      with ⟨refusal, refused⟩ | ⟨answer, after, done, accepted⟩ | ⟨id, _, _, _, lost⟩
    · simpa only [refused] using ⟨anchored, fitted⟩
    · rw [done]
      exact ⟨accepted.anchored bare anchored, accepted.fitted bare anchored.toCoherent fitted⟩
    · rw [lost]
      exact ⟨anchored.withoutListing id, fitted.of_pool rfl⟩
  exact applyAll_induction kept edits bare ⟨anchored, fitted⟩

end BehaviorTree
