import BehaviorTree.Proofs.Tree.Mirrors
import BehaviorTree.Proofs.Tree.Views

/-!
# Edits of detached nodes

Whoever works on nodes outside the hierarchy leaves the hierarchy alone, even where it shares children
with these nodes.  The only danger is a new node: an edge that is waiting for its identity would take
it in.  No edge does, as long as every node that has been added refers to what has been created before.
-/

namespace BehaviorTree

open Relation

/-! ## What edges refer to -/

/-- An added node refers to nodes that have been created before. -/
def Edit.RefersBack (tree : Tree) : Edit → Prop
  | addNode node => ∀ child ∈ node.children, child.index < tree.created
  | _ => True

/-- In a run of edits every added node refers to nodes that have been created before.  Only nodes that
come out of a tree have edges, so this leaves out nodes of other trees alone. -/
def Edit.AllReferBack : List Edit → Tree → Prop
  | [], _ => True
  | edit :: edits, tree => edit.RefersBack tree ∧ AllReferBack edits (edit.apply tree).2

/-- All edges lead to identities that have been issued. -/
def Tree.RefersBack (tree : Tree) : Prop :=
  ∀ parent child, tree.IsChild parent child → child.index < tree.created

variable {tree after : Tree} {edit : Edit} {answer : Answer}

theorem Tree.Rooted.refersBack (rooted : tree.Rooted) : tree.RefersBack := by
  intro parent child step
  exact rooted.bounded child (rooted.child_mem_ids step)

theorem Edit.IsBare.refersBack (bare : edit.IsBare) (tree : Tree) : edit.RefersBack tree := by
  cases edit with
  | addNode node =>
      have none : node.edges = [] := bare
      simp [Edit.RefersBack, Node.children, none]
  | _ => trivial

/-- Runs that add nodes without edges are among them. -/
theorem Edit.allReferBack_of_bare (edits : List Edit) (bare : ∀ edit ∈ edits, edit.IsBare)
    (tree : Tree) : AllReferBack edits tree := by
  induction edits generalizing tree with
  | nil => trivial
  | cons edit edits ih =>
      refine ⟨(bare edit List.mem_cons_self).refersBack tree, ih ?_ _⟩
      intro later member
      exact bare later (List.mem_cons_of_mem _ member)

/-! ## What edits do to edges -/

/-- What an edit does to the edges of a tree: it adds none, or one that closes no cycle, or those of a
new node. -/
inductive Edit.Rewires (tree : Tree) : Edit → Tree → Prop where
  | fewer {edit : Edit} {after : Tree}
      (edges : ∀ id other, after.IsChild id other → tree.IsChild id other) : Rewires tree edit after
  | link {edit : Edit} {after : Tree} {parent child : NodeId} (pooled : child ∈ tree.pool.ids)
      (notSame : parent ≠ child) (notAbove : ¬TransGen tree.IsChild child parent)
      (edges : ∀ id other, after.IsChild id other →
        tree.IsChild id other ∨ (id = parent ∧ other = child)) : Rewires tree edit after
  | insert {node : Node} : Rewires tree (.addNode node) (tree.insert node)

namespace Tree

theorem isChild_of_insert {node : Node} {parent child : NodeId}
    (step : (tree.insert node).IsChild parent child) :
    tree.IsChild parent child ∨ (parent = tree.nextId ∧ child ∈ node.children) := by
  rcases step with ⟨parentNode, found, member⟩
  rw [get?_insert, Option.or_eq_some_iff] at found
  rcases found with old | ⟨_, new⟩
  · exact .inl ⟨parentNode, old, member⟩
  · split at new
    · next same =>
        rw [Option.some.injEq] at new
        exact .inr ⟨same, new ▸ member⟩
    · cases new

theorem rewires_withEdges {id : NodeId} {change : List Edge → List Edge}
    (subset : ∀ node, tree.get? id = some node → change node.edges ⊆ node.edges) :
    edit.Rewires tree (tree.withEdges id change) := by
  refine .fewer fun parent child step => ?_
  rcases isChild_withEdges step with old | ⟨rfl, node, found, member⟩
  · exact old
  · rcases List.mem_map.mp member with ⟨edge, edgeMem, rfl⟩
    exact ⟨node, found, List.mem_map_of_mem (subset node found edgeMem)⟩

theorem rewires_attached {parentId childId : NodeId} {index : Option Nat} {bindings : ParameterSet}
    (attached : tree.attached true parentId index childId bindings = .ok after) :
    edit.Rewires tree after := by
  rcases attached_eq_ok_iff.mp attached with ⟨_, _, _, attachable, _, rfl⟩
  refine .link (Pool.mem_ids_of_get? attachable.child_found) attachable.not_same
    attachable.not_above fun id other step => ?_
  rcases isChild_withEdges step with old | ⟨rfl, node, found, member⟩
  · exact .inl old
  · rcases List.mem_map.mp member with ⟨edge, edgeMem, rfl⟩
    rcases List.eq_or_mem_of_mem_insertIdx edgeMem with rfl | old
    · exact .inr ⟨rfl, rfl⟩
    · exact .inl ⟨node, found, List.mem_map_of_mem old⟩

end Tree

namespace Edit.Accepted

theorem rewires (accepted : edit.Accepted tree answer after) : edit.Rewires tree after := by
  cases accepted with
  | addNode ordinary => exact .insert
  | deleteNode found detached =>
      refine .fewer fun id other step => ?_
      rcases step with ⟨newNode, newFound, member⟩
      rcases Tree.get?_withoutNode_eq_some newFound with ⟨_, node, found, rfl⟩
      rcases List.mem_map.mp member with ⟨edge, edgeMem, rfl⟩
      exact ⟨node, found, List.mem_map_of_mem (List.mem_of_mem_filter edgeMem)⟩
  | @addState name identifier fresh =>
      refine .fewer fun id other step => ?_
      have inserted : (tree.insert (Node.state name)).IsChild id other := step
      rcases Tree.isChild_of_insert inserted with old | ⟨_, new⟩
      · exact old
      · cases new
  | removeState found state others =>
      refine .fewer fun id other step => ?_
      rcases step with ⟨node, found, member⟩
      exact ⟨node, (Tree.get?_withoutState_eq_some.mp found).2, member⟩
  | setDefaultState known => exact .fewer fun _ _ step => step
  | setName => exact .fewer fun _ _ step => step
  | setExpandMethods => exact .fewer fun _ _ step => step
  | rename found identifier unshared =>
      exact .fewer fun _ _ => (Tree.restyles_withName _ _).isChild
  | setWeight found positive finite =>
      exact .fewer fun _ _ => (Tree.restyles_setWeight tree _ _).isChild
  | setComposite found kind same =>
      exact .fewer fun _ _ => (Tree.restyles_setComposite found kind same).isChild
  | addChild attached => exact Tree.rewires_attached attached
  | insertChild attached => exact Tree.rewires_attached attached
  | removeChild found position edgeFound =>
      exact Tree.rewires_withEdges fun _ _ _ member => List.mem_of_mem_eraseIdx member
  | moveChild found edgeFound inRange =>
      refine Tree.rewires_withEdges fun node nodeFound edge member => ?_
      rw [found, Option.some.injEq] at nodeFound
      subst nodeFound
      rcases List.eq_or_mem_of_mem_insertIdx member with rfl | old
      · exact List.mem_of_getElem? edgeFound
      · exact List.mem_of_mem_eraseIdx old
  | replaceChild found position childFound ordinary notSame notAbove =>
      refine .link (Pool.mem_ids_of_get? childFound) notSame notAbove fun id other step => ?_
      rcases Tree.isChild_withEdges step with old | ⟨rfl, node, found, member⟩
      · exact .inl old
      · rcases List.mem_map.mp member with ⟨edge, edgeMem, rfl⟩
        rcases Tree.mem_modify edgeMem with old | ⟨old, _, rfl⟩
        · exact .inl ⟨node, found, List.mem_map_of_mem old⟩
        · exact .inr ⟨rfl, rfl⟩
  | addParameter found carried added =>
      exact .fewer fun _ _ => (Tree.restyles_withDefinitions tree _ _).isChild
  | removeParameter found carried defined =>
      exact .fewer fun _ _ => (Tree.restyles_withDefinitions tree _ _).isChild
  | setParameterDefault found carried defined =>
      exact .fewer fun _ _ => (Tree.restyles_withParameters tree _ _).isChild
  | setBinding found edgeFound bound =>
      exact .fewer fun _ _ => (Tree.restyles_setBinding tree _ _ _ _).isChild
  | matchParameters => exact .fewer fun _ _ => (Tree.restyles_matchParameters tree).isChild
  | setProperties => exact .fewer fun _ _ => (Tree.restyles_withProperties tree _ _).isChild

theorem refersBack (accepted : edit.Accepted tree answer after) (orderly : tree.Orderly)
    (refersBack : tree.RefersBack) (added : edit.RefersBack tree) : after.RefersBack := by
  intro parent child step
  have grown : tree.created ≤ after.created := by
    rcases accepted.issues with ⟨_, created⟩ | ⟨_, created⟩ <;> omega
  have issued : child.index < tree.created := by
    cases accepted.rewires with
    | fewer edges => exact refersBack parent child (edges _ _ step)
    | link pooled notSame notAbove edges =>
        rcases edges _ _ step with old | ⟨_, rfl⟩
        · exact refersBack parent child old
        · exact orderly.bounded child pooled
    | insert =>
        rcases Tree.isChild_of_insert step with old | ⟨_, new⟩
        · exact refersBack parent child old
        · exact added child new
  omega

end Edit.Accepted

/-- What accepted edits keep in such a run holds at its end. -/
theorem Edit.allReferBack_induction {motive : Tree → Prop}
    (kept : ∀ {before after : Tree} {edit : Edit} {answer : Answer},
      edit.Accepted before answer after → before.Orderly → edit.RefersBack before →
        motive before → motive after)
    (edits : List Edit) (orderly : tree.Orderly) (added : AllReferBack edits tree)
    (start : motive tree) : motive (applyAll edits tree) := by
  induction edits generalizing tree with
  | nil => exact start
  | cons edit edits ih =>
      rcases added with ⟨first, later⟩
      have orderlyAfter : (edit.apply tree).2.Orderly := orderly_applyAll [edit] orderly
      apply ih orderlyAfter later
      rcases edit.apply_cases orderly.exists_get?
        with ⟨refusal, refused⟩ | ⟨answer, after, done, accepted⟩
      · simpa only [refused] using start
      · simpa only [done] using kept accepted orderly first start

theorem Edit.refersBack_applyAll (edits : List Edit) (orderly : tree.Orderly)
    (refersBack : tree.RefersBack) (added : AllReferBack edits tree) :
    (applyAll edits tree).RefersBack :=
  allReferBack_induction
    (fun accepted orderly back refersBack => accepted.refersBack orderly refersBack back)
    edits orderly added refersBack

/-! ## What detached edits leave alone -/

/-- An edit that adds a node, deletes one, or changes the properties, the parameters or the children
of one that is not in the hierarchy. -/
def Edit.IsDetached (tree : Tree) : Edit → Prop
  | addNode _ | deleteNode _ => True
  | rename id _ | setWeight id _ | setComposite id _ | setProperties id _ | addParameter id _
  | removeParameter id _ | setParameterDefault id _ _ | addChild id _ _ | insertChild id _ _ _
  | removeChild id _ | moveChild id _ _ | replaceChild id _ _ | setBinding id _ _ _ =>
      id ∉ tree.hierarchy
  | addState _ | removeState _ | setDefaultState _ | setName _ | setExpandMethods _
  | matchParameters => False

namespace Tree

variable {id other : NodeId} {node : Node}

theorem mirrors_of_agree (name : after.name = tree.name)
    (defaultState : after.defaultState = tree.defaultState) (states : after.states = tree.states)
    (nodes : ∀ id, tree.IsReached id → after.get? id = tree.get? id) :
    tree.Mirrors (fun id => id) after where
  name := name
  defaultState := defaultState
  states := by rw [states, List.map_id']
  distinct := fun _ _ _ _ same => same
  nodes := by
    intro id reached
    have same : Node.renamed (fun id => id) = fun node : Node => node := funext Node.renamed_id
    rw [nodes id reached, same, Option.map_id']

theorem not_isReached (found : tree.get? id = some node) (detached : id ∉ tree.hierarchy) :
    ¬tree.IsReached id := by
  intro reached
  exact detached (mem_hierarchy_iff.mpr ⟨reached, node, found⟩)

theorem IsReached.ne (reached : tree.IsReached other) (detached : ¬tree.IsReached id) :
    other ≠ id := by
  rintro rfl
  exact detached reached

theorem get?_modify_of_detached (detached : id ∉ tree.hierarchy) {change : Node → Node}
    (reached : tree.IsReached other) : (tree.modify id change).get? other = tree.get? other := by
  rw [get?_modify]
  rcases found : tree.get? other with _ | node
  · rfl
  · have different : other ≠ id := by
      rintro rfl
      exact not_isReached found detached reached
    simp [different]

theorem IsReached.lt_created (orderly : tree.Orderly) (refersBack : tree.RefersBack)
    (reached : tree.IsReached id) : id.index < tree.created := by
  rcases isReached_iff_parent.mp reached with state | ⟨parent, step, _⟩
  · exact orderly.bounded id (orderly.pooled id state)
  · exact refersBack parent id step

theorem mirrors_modify (detached : id ∉ tree.hierarchy) (change : Node → Node) :
    tree.Mirrors (fun id => id) (tree.modify id change) :=
  mirrors_of_agree rfl rfl rfl fun _ => get?_modify_of_detached detached

theorem mirrors_insert (orderly : tree.Orderly) (refersBack : tree.RefersBack) (node : Node) :
    tree.Mirrors (fun id => id) (tree.insert node) := by
  refine mirrors_of_agree rfl rfl rfl fun id reached => ?_
  have created := reached.lt_created orderly refersBack
  have old : id ≠ tree.nextId := by
    rintro rfl
    exact Nat.lt_irrefl _ created
  rw [get?_insert, if_neg old, Option.or_none]

theorem mirrors_withoutNode (detached : ¬tree.IsReached id) :
    tree.Mirrors (fun id => id) (tree.withoutNode id) := by
  refine mirrors_of_agree rfl rfl rfl fun other reached => ?_
  rcases found : tree.get? other with _ | node
  · simp [get?_withoutNode, found]
  · have edges : node.edges.filter (·.child ≠ id) = node.edges := by
      apply List.filter_eq_self.mpr
      intro edge member
      have child := reached.child ⟨node, found, List.mem_map_of_mem member⟩
      simpa using child.ne detached
    rw [get?_withoutNode_of_ne (reached.ne detached) found, Node.detachedFrom, edges]

theorem mirrors_withName (found : tree.get? id = some node) (detached : id ∉ tree.hierarchy)
    (name : String) : tree.Mirrors (fun id => id) (tree.withName id node name) := by
  have notState : id ∉ tree.states := by
    intro state
    exact not_isReached found detached (isReached_of_state state)
  refine mirrors_of_agree rfl ?_ rfl fun other reached => ?_
  · simp [Tree.withName, notState]
  · have kept : (tree.modify id fun node => { node with name }).get? other = tree.get? other :=
      get?_modify_of_detached detached reached
    exact kept

/-- No edge of the hierarchy leads to a detached node, so none of them is refitted. -/
theorem map_edges_of_detached (found : tree.get? other = some node) (reached : tree.IsReached other)
    (detached : ¬tree.IsReached id) (change : Edge → Edge) :
    (node.edges.map fun edge => if edge.child = id then change edge else edge) = node.edges := by
  refine (List.map_congr_left fun edge member => ?_).trans (List.map_id _)
  have child := reached.child ⟨node, found, List.mem_map_of_mem member⟩
  simp [child.ne detached]

theorem mirrors_withDefinitions (found : tree.get? id = some node) (detached : id ∉ tree.hierarchy)
    (definitions : ParameterSet) :
    tree.Mirrors (fun id => id) (tree.withDefinitions id definitions) := by
  refine mirrors_of_agree rfl rfl rfl fun other reached => ?_
  rw [withDefinitions, get?_refitted, get?_modify_of_detached detached reached]
  rcases otherFound : tree.get? other with _ | otherNode
  · rfl
  · have unreached := not_isReached found detached
    simp only [Option.map_some, map_edges_of_detached otherFound reached unreached]

theorem mirrors_attached {child : NodeId} {index : Option Nat} {bindings : ParameterSet}
    (attached : tree.attached true id index child bindings = .ok after)
    (detached : id ∉ tree.hierarchy) : tree.Mirrors (fun id => id) after := by
  rcases attached_eq_ok_iff.mp attached with ⟨_, _, _, _, _, rfl⟩
  exact mirrors_modify detached _

end Tree

/-- What the states reach stays as it is in an edit of detached nodes. -/
theorem Edit.Accepted.mirrors (accepted : edit.Accepted tree answer after)
    (orderly : tree.Orderly) (refersBack : ∀ node, edit = .addNode node → tree.RefersBack)
    (detached : edit.IsDetached tree) : tree.Mirrors (fun id => id) after := by
  cases accepted with
  | @addNode node ordinary => exact Tree.mirrors_insert orderly (refersBack node rfl) node
  | deleteNode found unreached => exact Tree.mirrors_withoutNode unreached
  | rename found identifier unshared => exact Tree.mirrors_withName found detached _
  | addParameter found carried added => exact Tree.mirrors_withDefinitions found detached _
  | removeParameter found carried defined => exact Tree.mirrors_withDefinitions found detached _
  | addChild attached => exact Tree.mirrors_attached attached detached
  | insertChild attached => exact Tree.mirrors_attached attached detached
  | setWeight | setComposite | setProperties | setParameterDefault | removeChild | moveChild
  | replaceChild | setBinding => exact Tree.mirrors_modify detached _
  | addState | removeState | setDefaultState | setName | setExpandMethods | matchParameters =>
      exact detached.elim

theorem Edit.mirrors_apply (orderly : tree.Orderly)
    (refersBack : ∀ node, edit = .addNode node → tree.RefersBack)
    (detached : edit.IsDetached tree) : tree.Mirrors (fun id => id) (edit.apply tree).2 := by
  rcases edit.apply_cases orderly.exists_get?
    with ⟨refusal, refused⟩ | ⟨answer, after, done, accepted⟩
  · rw [refused]
    exact Tree.mirrors_of_agree rfl rfl rfl fun _ _ => rfl
  · rw [done]
    exact accepted.mirrors orderly refersBack detached

end BehaviorTree
