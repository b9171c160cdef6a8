import BehaviorTree.Proofs.Document.Copies
import BehaviorTree.Proofs.Document.Nodes

/-!
# Trees from their documents

A tree whose identities are its numbers is what a load makes of its document.  First come all nodes,
without children.  Then the edges are attached one after the other, in the order of the document; at
every moment the assembled tree is a part of the tree in the document, and since that one has no
cycles, no edge to a state and no edge from a leaf, no attachment is refused.
-/

namespace BehaviorTree

open BehaviorTree.Document BehaviorTree.Json Relation

/-! ## Parts of pools -/

namespace Pool

/-- The same nodes with some of their edges. -/
def IsPart (part whole : Pool) : Prop :=
  List.Forall₂ (fun entry complete => entry.1 = complete.1 ∧
    ∃ edges ⊆ complete.2.edges, entry.2 = complete.2.withEdges edges) part whole

variable {part whole front back : Pool} {id : NodeId} {node : Node}

theorem isPart_self (pool : Pool) : pool.IsPart pool :=
  List.forall₂_same.mpr fun entry _ => ⟨rfl, entry.2.edges, List.Subset.refl _, rfl⟩

theorem isPart_bare (pool : Pool) : pool.bare.IsPart pool := by
  rw [IsPart, bare, mapNodes, List.forall₂_map_left_iff]
  exact List.forall₂_same.mpr fun entry _ => ⟨rfl, [], List.nil_subset _, rfl⟩

theorem IsPart.ids (isPart : part.IsPart whole) : part.ids = whole.ids := by
  induction isPart with
  | nil => rfl
  | cons same _ ih => rw [ids_cons, ids_cons, same.1, ih]

theorem IsPart.get? (isPart : part.IsPart whole) (found : whole.get? id = some node) :
    ∃ edges ⊆ node.edges, part.get? id = some (node.withEdges edges) := by
  induction isPart with
  | nil => simp at found
  | @cons entry complete part whole same _ ih =>
      rcases same with ⟨sameId, edges, subset, sameNode⟩
      rw [get?_cons] at found
      rw [get?_cons, sameId]
      split at found
      · next here =>
          rw [Option.some.injEq] at found
          subst found
          exact ⟨edges, subset, by rw [if_pos here, sameNode]⟩
      · next later =>
          rw [if_neg later]
          exact ih found

end Pool

/-! ## Attaching edges -/

namespace Tree

variable {tree : Tree}

/-- A tree with other nodes and no states yet. -/
def unfinished (tree : Tree) (pool : Pool) : Tree :=
  { tree with states := [], pool }

theorem exists_of_get?_part {part : Pool} (isPart : part.IsPart tree.pool) {id : NodeId}
    {node : Node} (found : (tree.unfinished part).get? id = some node) :
    ∃ complete, tree.get? id = some complete ∧ ∃ edges ⊆ complete.edges,
      node = complete.withEdges edges := by
  have pooled := Pool.mem_ids_of_get? found
  rw [unfinished, isPart.ids] at pooled
  rcases Pool.mem_ids_iff.mp pooled with ⟨complete, completeFound⟩
  rcases isPart.get? completeFound with ⟨edges, subset, partFound⟩
  refine ⟨complete, completeFound, edges, subset, ?_⟩
  exact Option.some.inj (found.symm.trans partFound)

theorem isChild_of_isPart {part : Pool} (isPart : part.IsPart tree.pool) {parent child : NodeId}
    (step : (tree.unfinished part).IsChild parent child) : tree.IsChild parent child := by
  rcases step with ⟨node, found, childMem⟩
  rcases exists_of_get?_part isPart found with ⟨complete, completeFound, edges, subset, rfl⟩
  exact ⟨complete, completeFound, List.map_subset _ subset childMem⟩

theorem fitBindings_part {part : Pool} (isPart : part.IsPart tree.pool) (child : NodeId)
    (bindings : ParameterSet) :
    (tree.unfinished part).fitBindings child bindings = tree.fitBindings child bindings := by
  have same : (tree.unfinished part).definitions? child = tree.definitions? child := by
    refine definitions?_of_parameters (fun id => ?_) child
    rcases found : tree.get? id with _ | node
    · have absent := Pool.get?_eq_none_iff.mp found
      rw [← isPart.ids] at absent
      have partMissing : (tree.unfinished part).get? id = none :=
        Pool.get?_eq_none_iff.mpr absent
      rw [partMissing]
    · rcases isPart.get? found with ⟨edges, _, partFound⟩
      have partHas : (tree.unfinished part).get? id = some (node.withEdges edges) := partFound
      rw [partHas]
      rfl
  rw [fitBindings, same, fitBindings]

/-- In a part of a tree every edge of the tree can be attached. -/
theorem Coherent.attachable_part {part : Pool} (coherent : tree.Coherent)
    (isPart : part.IsPart tree.pool) {id : NodeId} {node : Node} {edge : Edge}
    {attached : List Edge} (found : tree.get? id = some node) (member : edge ∈ node.edges)
    (partFound : (tree.unfinished part).get? id = some (node.withEdges attached)) :
    ∃ child, (tree.unfinished part).Attachable false id (node.withEdges attached) edge.child child
      attached.length := by
  have step : tree.IsChild id edge.child := ⟨node, found, List.mem_map_of_mem member⟩
  rcases coherent.fit step with ⟨⟨parent, parentFound, inner⟩, child, childFound, ordinary⟩
  rw [found, Option.some.injEq] at parentFound
  subst parentFound
  rcases isPart.get? childFound with ⟨edges, _, childPart⟩
  refine ⟨child.withEdges edges, {
    parent_found := partFound
    child_found := childPart
    not_leaf := inner
    not_state := ordinary
    vacant := nofun
    in_range := Nat.le_refl _
    not_same := ?_
    not_above := ?_ }⟩
  · intro same
    exact coherent.acyclic id (.single (same ▸ step))
  · intro above
    have old := TransGen.mono (fun _ _ => isChild_of_isPart isPart) _ _ above
    exact coherent.acyclic id (old.head step)

/-- An edge is what the tree makes of a given one: its bindings are brought in step. -/
def RefitsTo (tree : Tree) (given edge : Edge) : Prop :=
  given.child = edge.child ∧ tree.fitBindings edge.child given.bindings = edge.bindings

/-- The pool of the tree is what it makes of a given one. -/
def RefitsPool (tree : Tree) (given pool : Pool) : Prop :=
  List.Forall₂ (fun entry own =>
    entry.1 = own.1 ∧ List.Forall₂ tree.RefitsTo entry.2.edges own.2.edges) given pool

theorem refitsPool_matchParameters (tree : Tree) :
    tree.matchParameters.RefitsPool tree.pool tree.matchParameters.pool := by
  have same : ∀ child bindings, tree.matchParameters.fitBindings child bindings =
      tree.fitBindings child bindings := by
    intro child bindings
    have definitions : tree.matchParameters.definitions? child = tree.definitions? child :=
      definitions?_mapEdges tree _ child
    simp only [fitBindings, definitions]
  have pool : tree.matchParameters.pool = tree.pool.map fun entry =>
      (entry.1, { entry.2 with
        edges := entry.2.edges.map fun edge =>
          { edge with bindings := tree.fitBindings edge.child edge.bindings } }) := rfl
  rw [RefitsPool, pool, List.forall₂_map_right_iff]
  apply List.forall₂_same.mpr
  intro entry _
  refine ⟨rfl, ?_⟩
  rw [List.forall₂_map_right_iff]
  exact List.forall₂_same.mpr fun edge _ => ⟨rfl, same edge.child edge.bindings⟩

/-- The tree of an assembly that has come to some edge of a node. -/
def attaching (tree : Tree) (front : Pool) (id : NodeId) (node : Node) (attached : List Edge)
    (back : Pool) : Tree :=
  tree.unfinished (front ++ (id, node.withEdges attached) :: back.bare)

section Attaching

variable {front back : Pool} {id : NodeId} {node : Node} {attached remaining : List Edge}
  {edge : Edge}

theorem isPart_attaching (split : tree.pool = front ++ (id, node) :: back)
    (edges : node.edges = attached ++ remaining) :
    (tree.attaching front id node attached back).pool.IsPart tree.pool := by
  rw [split]
  refine List.rel_append front.isPart_self (.cons ⟨rfl, attached, ?_, rfl⟩ back.isPart_bare)
  rw [edges]
  exact List.subset_append_left _ _

theorem Coherent.get?_split (coherent : tree.Coherent)
    (split : tree.pool = front ++ (id, node) :: back) : tree.get? id = some node := by
  refine Pool.get?_of_mem coherent.nodup_ids ?_
  rw [split]
  exact List.mem_append_right _ List.mem_cons_self

/-- The next edge of a node is attached as it stands in the tree, if the tree fits its bindings. -/
theorem Counted.attach_attaching {given : Edge} (counted : tree.Counted)
    (split : tree.pool = front ++ (id, node) :: back)
    (edges : node.edges = attached ++ edge :: remaining) (refits : tree.RefitsTo given edge) :
    Builder.attach ⟨tree.attaching front id node attached back⟩ id given.child given.bindings =
      .ok ⟨tree.attaching front id node (attached ++ [edge]) back⟩ := by
  have isPart := isPart_attaching split edges
  have distinct := counted.nodup_ids
  have found := counted.toCoherent.get?_split split
  have partFound : (tree.attaching front id node attached back).get? id =
      some (node.withEdges attached) := by
    refine Pool.get?_of_mem (isPart.ids ▸ distinct) ?_
    exact List.mem_append_right _ List.mem_cons_self
  have member : edge ∈ node.edges := by
    rw [edges]
    exact List.mem_append_right _ List.mem_cons_self
  rcases counted.toCoherent.attachable_part isPart found member partFound with ⟨child, attachable⟩
  rcases refits with ⟨sameChild, fits⟩
  have fitted : (tree.attaching front id node attached back).fitBindings edge.child given.bindings =
      edge.bindings :=
    (fitBindings_part isPart _ _).trans fits
  have changed : Pool.modify (front ++ (id, node.withEdges attached) :: back.bare) id
      (fun node => { node with edges := node.edges.insertIdx attached.length edge }) =
        front ++ (id, node.withEdges (attached ++ [edge])) :: back.bare := by
    rw [Pool.modify_middle (isPart.ids ▸ distinct)]
    simp only [Node.withEdges, List.insertIdx_length_self]
  have accepted : (tree.attaching front id node attached back).attached false id none edge.child
      given.bindings = .ok (tree.attaching front id node (attached ++ [edge]) back) := by
    refine attached_eq_ok_iff.mpr ⟨_, child, attached.length, attachable, rfl, ?_⟩
    rw [fitted]
    exact congrArg tree.unfinished changed.symm
  rw [Builder.attach, sameChild, accepted]
  rfl

end Attaching

/-! ## Reading entries -/

theorem lookup_map_index {id : NodeId} {ids : List NodeId} (member : id ∈ ids) :
    (ids.map fun id => ((id.index : Int), id)).lookup (id.index : Int) = some id := by
  induction ids with
  | nil => simp at member
  | cons first ids ih =>
      rw [List.map_cons, List.lookup_cons]
      by_cases same : id = first
      · simp [same]
      · have apart : ((id.index : Int) == first.index) = false := by
          rw [beq_eq_false_iff_ne]
          intro equal
          exact same (congrArg NodeId.mk (Int.ofNat.inj equal))
        rw [apart]
        exact ih ((List.mem_cons.mp member).resolve_left same)

/-- The assembly that has read all nodes of a tree, and some of their edges. -/
def linked (tree : Tree) (part : Pool) : Assembly where
  builder := ⟨tree.unfinished part⟩
  nodes := tree.pool.ids.map fun id => (id.index, id)
  states := tree.states

section Attaching

variable {front back : Pool} {id : NodeId} {node : Node}

/-- All edges of a node are attached in their order. -/
theorem Counted.foldl_addChild (counted : tree.Counted)
    (split : tree.pool = front ++ (id, node) :: back) (entryId : Int)
    {given attached remaining : List Edge} (edges : node.edges = attached ++ remaining)
    (refits : List.Forall₂ tree.RefitsTo given remaining) :
    (given.map attachmentRecord).foldl (Assembly.addChild entryId id)
        (tree.linked (tree.attaching front id node attached back).pool) =
      tree.linked (front ++ (id, node) :: back.bare) := by
  induction refits generalizing attached with
  | nil =>
      rw [List.append_nil] at edges
      rw [← edges]
      rfl
  | @cons first edge given remaining refits _ ih =>
      have member : edge ∈ node.edges := by
        rw [edges]
        exact List.mem_append_right _ List.mem_cons_self
      have childPooled : first.child ∈ tree.pool.ids := by
        rw [refits.1]
        exact counted.toCoherent.child_mem_ids
          ⟨node, counted.toCoherent.get?_split split, List.mem_map_of_mem member⟩
      have next : Assembly.addChild entryId id
          (tree.linked (tree.attaching front id node attached back).pool)
          (attachmentRecord first) =
            tree.linked (tree.attaching front id node (attached ++ [edge]) back).pool := by
        have named : (tree.linked (tree.attaching front id node attached back).pool).node?
            (attachmentRecord first).childId = some first.child := lookup_map_index childPooled
        have accepted : (tree.linked (tree.attaching front id node attached back).pool).builder.attach
            id first.child first.bindings =
              .ok ⟨tree.attaching front id node (attached ++ [edge]) back⟩ :=
          counted.attach_attaching split edges refits
        rw [Assembly.addChild, named]
        simp only [attachmentRecord, parametersOf_recordsOf, accepted]
        rfl
      rw [List.map_cons, List.foldl_cons, next]
      apply ih
      rw [edges, List.append_assoc, List.singleton_append]

end Attaching

/-- All entries of a document are read, where the tree fits the bindings in them. -/
theorem Counted.foldl_addHierarchy (counted : tree.Counted) {given front back : Pool}
    (split : tree.pool = front ++ back) (refits : tree.RefitsPool given back) {values : List Value}
    (decoded : values.map HierarchyEntry.shape.decode =
      (given.filterMap attachments?).map Except.ok) (start : Nat) :
    (values.zipIdx start).foldl Assembly.addHierarchy (tree.linked (front ++ back.bare)) =
      tree.linked tree.pool := by
  induction refits generalizing front values start with
  | nil =>
      rw [List.map_eq_nil_iff.mp decoded, split]
      rfl
  | @cons entry own given back refits _ ih =>
      rcases entry with ⟨id, other⟩
      rcases own with ⟨same, node⟩
      rcases refits with ⟨sameId, refits⟩
      obtain rfl : id = same := sameId
      have splitNext : tree.pool = (front ++ [(id, node)]) ++ back := by
        rw [split, List.append_assoc, List.singleton_append]
      rcases edges : other.edges with _ | ⟨edge, rest⟩
      · have noEntry : attachments? (id, other) = none := by
          simp [attachments?, edges]
        have none : node.edges = [] := by
          rw [edges] at refits
          exact List.forall₂_nil_left_iff.mp refits
        rw [List.filterMap_cons_none noEntry] at decoded
        have same : front ++ Pool.bare ((id, node) :: back) =
            (front ++ [(id, node)]) ++ Pool.bare back := by
          have noEdges : node.withEdges [] = node := by
            rw [Node.withEdges, ← none]
          rw [Pool.bare_cons, noEdges, List.append_assoc, List.singleton_append]
        rw [same]
        exact ih splitNext decoded start
      · have someEntry : attachments? (id, other) =
            some ⟨id.index, other.edges.map attachmentRecord⟩ := by
          simp [attachments?, edges]
        rw [List.filterMap_cons_some someEntry, List.map_cons] at decoded
        rcases List.map_eq_cons_iff.mp decoded with ⟨value, values, rfl, first, later⟩
        have pooled := Pool.mem_ids_of_get? (counted.toCoherent.get?_split split)
        have named : (tree.linked (front ++ Pool.bare ((id, node) :: back))).node? id.index =
            some id := lookup_map_index pooled
        have next : (tree.linked (front ++ Pool.bare ((id, node) :: back))).addHierarchy
            (value, start) = tree.linked ((front ++ [(id, node)]) ++ Pool.bare back) := by
          rw [Assembly.addHierarchy, first]
          simp only [Assembly.addEntry, named]
          rw [List.append_assoc, List.singleton_append]
          exact counted.foldl_addChild split _ (List.nil_append _).symm refits
        rw [List.zipIdx_cons, List.foldl_cons, next]
        exact ih splitNext later (start + 1)

/-! ## Reading records -/

/-- The assembly that has read the first nodes of a tree. -/
def begun (tree : Tree) (front : Pool) : Assembly where
  builder := ⟨{ tree.unfinished front.bare with created := front.length }⟩
  nodes := front.ids.map fun id => (id.index, id)
  states := (front.filter fun entry => entry.2.isState).map Prod.fst

theorem Counted.begun_pool (counted : tree.Counted) :
    tree.begun tree.pool = tree.linked tree.pool.bare := by
  rw [begun, linked, counted.states, counted.length_pool]
  rfl

theorem addNode_begun {front : Pool} {id : NodeId} (next : id.index = front.length) (node : Node) :
    (tree.begun front).addNode id.index (node.withEdges []) = tree.begun (front ++ [(id, node)]) := by
  have nextId : (tree.begun front).builder.tree.nextId = id := congrArg NodeId.mk next.symm
  have pool : front.bare ++ [(id, node.withEdges [])] = Pool.bare (front ++ [(id, node)]) := by
    rw [Pool.bare_append]
    rfl
  have nodes : (front.ids.map fun id => ((id.index : Int), id)) ++ [((id.index : Int), id)] =
      (Pool.ids (front ++ [(id, node)])).map fun id => ((id.index : Int), id) := by
    rw [Pool.ids, Pool.ids, List.map_append, List.map_append]
    rfl
  have states : (if node.isState then (tree.begun front).states ++ [id]
      else (tree.begun front).states) = (tree.begun (front ++ [(id, node)])).states := by
    simp only [begun, List.filter_append, List.map_append, List.filter_cons, List.filter_nil]
    split <;> simp
  have builder : (tree.begun front).builder.addNode (node.withEdges []) =
      (tree.begun (front ++ [(id, node)])).builder := by
    rw [Builder.addNode, Tree.insert, nextId]
    simp only [begun, unfinished, ← pool, List.length_append, List.length_singleton]
  rw [Assembly.addNode, nextId, builder]
  exact (Assembly.mk.injEq ..).mpr ⟨rfl, nodes, states, rfl⟩

/-- All records of the document are read. -/
theorem Counted.foldl_addBehavior (counted : tree.Counted) {number? : NodeId → Option Nat}
    {front back : Pool} (split : tree.pool = front ++ back) {values : List Value}
    (decoded : values.map BehaviorRecord.shape.decode =
      back.map fun entry => .ok (nodeRecord number? entry.1.index entry.2)) (start : Nat) :
    (values.zipIdx start).foldl Assembly.addBehavior (tree.begun front) =
      tree.linked tree.pool.bare := by
  induction back generalizing front values start with
  | nil =>
      rw [List.append_nil] at split
      rw [List.map_eq_nil_iff.mp decoded, ← split]
      exact counted.begun_pool
  | cons entry back ih =>
      rcases entry with ⟨id, node⟩
      rw [List.map_cons] at decoded
      rcases List.map_eq_cons_iff.mp decoded with ⟨value, values, rfl, first, later⟩
      have place : tree.pool.ids[front.length]? = some id := by
        rw [split, Pool.ids, List.map_append, List.getElem?_append_right (by simp)]
        simp
      have next : (tree.begun front).addBehavior (value, start) =
          tree.begun (front ++ [(id, node)]) := by
        rw [Assembly.addBehavior, first]
        simp only [nodeOf_nodeRecord]
        rw [(nodeRecord_common number? id.index node).2.2.2.2,
          ← addNode_begun (counted.getElem?_ids place) node]
        rfl
      rw [List.zipIdx_cons, List.foldl_cons, next]
      refine ih ?_ later (start + 1)
      rw [split, List.append_assoc, List.singleton_append]

/-! ## The finished tree -/

theorem Counted.finish (counted : tree.Counted) :
    Builder.finish ⟨tree.unfinished tree.pool⟩ tree.states = tree := by
  have states : (tree.states.filter fun id =>
      (Builder.get? ⟨tree.unfinished tree.pool⟩ id).any Node.isState) = tree.states := by
    rw [List.filter_eq_self]
    exact fun id member => holdsState_iff.mpr ((counted.mem_states id).mp member)
  have some : tree.states.isEmpty = false := by
    simpa using counted.states_nonempty
  rw [Builder.finish, states]
  simp only [some, Bool.false_eq_true, ↓reduceIte]
  exact counted.fitted.matchParameters_eq counted.nodup_ids

/-- A draft that says the same as the document of a tree is loaded as the tree, even if its bindings
are still to be brought in step. -/
theorem Counted.loaded (counted : tree.Counted) {draft : TreeDraft} {given : Pool}
    (refits : tree.RefitsPool given tree.pool)
    (name : draft.name = tree.name) (defaultState : draft.defaultState = tree.defaultState)
    (expandMethods : draft.expandMethods = tree.expandMethods)
    (behaviors : draft.behaviors.map BehaviorRecord.shape.decode =
      tree.toDocument.behaviors.map Except.ok)
    (hierarchy : draft.hierarchy.map HierarchyEntry.shape.decode =
      (given.filterMap attachments?).map Except.ok) : draft.loaded = ⟨tree, []⟩ := by
  have start : draft.start = tree.begun [] := by
    rw [TreeDraft.start, name, defaultState, expandMethods]
    rfl
  rw [counted.behaviors, List.map_map] at behaviors
  have assembled : draft.assembled = tree.linked tree.pool := by
    rw [TreeDraft.assembled, start, counted.foldl_addBehavior rfl behaviors 0]
    exact counted.foldl_addHierarchy (List.nil_append _).symm refits hierarchy 0
  have some : tree.states.isEmpty = false := by
    simpa using counted.states_nonempty
  rw [TreeDraft.loaded, assembled]
  simp only [linked, some, Bool.false_eq_true, ↓reduceIte, counted.finish]

end Tree

end BehaviorTree
