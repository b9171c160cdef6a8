import BehaviorTree.Proofs.Document.Selection
import BehaviorTree.Proofs.Json.Rendering

/-!
# The edges of a loaded tree

A load attaches child containers one after the other, and the builder refuses some of them.  Its tree
is that of the records alone, with an edge for each container that has been accepted, so what it
refuses is what a selection among the containers refuses.
-/

namespace BehaviorTree

open BehaviorTree.Document BehaviorTree.Json Relation

/-! ## Pools with other edges -/

namespace Pool

variable {pool : Pool} {edgesOf : NodeId → List Edge}

/-- The pool with the given edges instead of its own. -/
def withEdges (pool : Pool) (edgesOf : NodeId → List Edge) : Pool :=
  pool.map fun (id, node) => (id, node.withEdges (edgesOf id))

theorem get?_withEdges (pool : Pool) (edgesOf : NodeId → List Edge) (id : NodeId) :
    (pool.withEdges edgesOf).get? id =
      (pool.get? id).map fun node => node.withEdges (edgesOf id) := by
  induction pool with
  | nil => rfl
  | cons entry pool ih =>
      have first : Pool.withEdges (entry :: pool) edgesOf =
          (entry.1, entry.2.withEdges (edgesOf entry.1)) :: Pool.withEdges pool edgesOf := rfl
      rw [first, get?_cons, get?_cons, ih]
      split
      · next same =>
          rw [same]
          rfl
      · rfl

theorem modify_withEdges (pool : Pool) (edgesOf : NodeId → List Edge) (parent : NodeId)
    (edge : Edge) :
    (pool.withEdges edgesOf).modify parent (fun node =>
        { node with edges := node.edges.insertIdx (edgesOf parent).length edge }) =
      pool.withEdges fun id => edgesOf id ++ if id = parent then [edge] else [] := by
  rw [modify, withEdges, withEdges, List.map_map]
  apply List.map_congr_left
  intro entry _
  simp only [Function.comp_apply]
  split
  · next same => simp [same, Node.withEdges]
  · simp

theorem bare_eq_self (none : pool.links = []) : pool.bare = pool := by
  induction pool with
  | nil => rfl
  | cons entry pool ih =>
      rw [links_cons, List.append_eq_nil_iff, List.map_eq_nil_iff, Node.children,
        List.map_eq_nil_iff] at none
      rw [bare_cons, ih none.2, Node.withEdges, ← none.1]

end Pool

/-! ## Attaching -/

/-- Apart from the first two, the checks of a builder are about the parent, the child and the graph,
in this order. -/
theorem Builder.attach_eq {builder : Builder} {parentId childId : NodeId} {parent child : Node}
    (parentFound : builder.tree.get? parentId = some parent)
    (childFound : builder.tree.get? childId = some child) (bindings : ParameterSet) :
    builder.attach parentId childId bindings =
      if parent.isLeaf then .error (.leafNode parent.name)
      else if child.isState then .error (.stateAsChild child.name)
      else if builder.tree.wouldCycle parentId childId then .error (.cycle parentId childId)
      else .ok ⟨builder.tree.insertEdge parentId parent.edges.length
        ⟨childId, child.fit bindings⟩⟩ := by
  simp only [attach, Tree.attached, Tree.attachPosition, parentFound, childFound,
    Tree.fitBindings_eq_fit childFound]
  split
  · rfl
  split
  · rfl
  simp only [Option.getD_none, lt_self_iff_false, ↓reduceIte, Bool.false_and, Bool.false_eq_true]
  split
  · rfl
  · rfl

/-- A priority selector as a state. -/
def Node.promoted (node : Node) : Node :=
  match node.kind with
  | .composite (.priority order) => { node with kind := .composite (.state order) }
  | _ => node

theorem Node.promoted_withEdges (node : Node) (edges : List Edge) :
    (node.withEdges edges).promoted = node.promoted.withEdges edges := by
  simp only [promoted, withEdges]
  split <;> rfl

/-! ## Containers of a draft -/

namespace Document

def LoadWarning.isRejection : LoadWarning → Bool
  | rejectedEdge _ _ _ => true
  | _ => false

theorem Noted.OnValues.no_rejection {α : Type} {noted : Noted α} (onValues : noted.OnValues) :
    noted.warnings.filter LoadWarning.isRejection = [] := by
  apply onValues.filter_eq_nil
  intro warning concerns
  cases warning <;> first | rfl | cases concerns

theorem result_mapM_loop {α β : Type} (step : α → Noted β) (elements : List α) (front : List β) :
    (List.mapM.loop step elements front).result =
      front.reverse ++ elements.map fun element => (step element).result := by
  induction elements generalizing front with
  | nil =>
      rw [List.map_nil, List.append_nil]
      rfl
  | cons element elements ih =>
      change (List.mapM.loop step elements ((step element).result :: front)).result = _
      rw [ih, List.reverse_cons, List.append_assoc, List.singleton_append, List.map_cons]

/-- The node that warnings name has no part in what is read. -/
theorem result_parametersOf (node : String) (records : List ParameterRecord) :
    (parametersOf node records).result = records.map ParameterRecord.parameter := by
  refine (result_mapM_loop _ records []).trans ?_
  rw [List.reverse_nil, List.nil_append]
  apply List.map_congr_left
  intro record _
  change Parameter.mk record.name (wordOrDefault _ _ _ : Noted ParameterType).result record.value = _
  rw [ParameterRecord.parameter]
  congr 1
  by_cases blank : record.type = ""
  · rw [if_pos blank, blank]
    rfl
  · rw [if_neg blank, wordOrDefault]
    cases Vocabulary.ofWord ParameterType record.type <;> rfl

namespace Kept

variable {kept : Kept} {id : Int} {place : NodeId}

theorem exists_of_place? (named : kept.place? id = some place) :
    ∃ node, kept[place.index]? = some (id, node) := by
  rcases List.lookup_eq_some_iff.mp named with ⟨front, back, places, _⟩
  have member : (id, place) ∈ kept.places := places ▸ List.mem_append_right _ List.mem_cons_self
  rcases List.mem_map.mp member with ⟨⟨entry, index⟩, entryMem, same⟩
  rw [Prod.mk.injEq] at same
  rcases same with ⟨rfl, rfl⟩
  exact ⟨entry.2, List.mem_zipIdx_iff_getElem?.mp entryMem⟩

theorem exists_get?_of_place? (named : kept.place? id = some place) :
    ∃ node, kept.pool.get? place = some node := by
  rcases exists_of_place? named with ⟨node, found⟩
  apply Pool.mem_ids_iff.mp
  refine List.mem_map.mpr ⟨(place, node), List.mem_map.mpr ⟨((id, node), place.index), ?_, rfl⟩, rfl⟩
  exact List.mem_zipIdx_iff_getElem?.mpr found

/-- A child container of the entry `entryId`, if its child is known. -/
def container? (kept : Kept) (entryId : Int) (parent : NodeId) (record : ChildRecord) :
    Option Container :=
  (kept.place? record.childId).map fun child => record.container entryId parent child

/-- The containers of an element of a hierarchy whose parent and child are known. -/
def containersIn (kept : Kept) (value : Value) : List Container :=
  match HierarchyEntry.shape.decode value with
  | .error _ => []
  | .ok entry =>
      match kept.place? entry.id with
      | none => []
      | some parent => entry.children.filterMap (kept.container? entry.id parent)

/-- The edges from a node to the children that have been accepted, in order. -/
def edgesFrom (kept : Kept) (accepted : List Container) (id : NodeId) : List Edge :=
  (accepted.filter (·.parent = id)).map (Container.edge kept)

theorem edgesFrom_concat (kept : Kept) (accepted : List Container) (container : Container)
    (id : NodeId) :
    kept.edgesFrom (accepted ++ [container]) id =
      kept.edgesFrom accepted id ++
        if id = container.parent then [container.edge kept] else [] := by
  rw [edgesFrom, edgesFrom, List.filter_append, List.map_append]
  congr 1
  by_cases same : container.parent = id
  · simp [same]
  · simp [same, Ne.symm same]

end Kept

/-! ## The assembly of a draft -/

namespace TreeDraft

/-- The containers of a draft whose parent and child are known, in order. -/
def resolved (draft : TreeDraft) : List Container :=
  draft.hierarchy.flatMap draft.kept.containersIn

/-- The tree of the records with the edges of accepted containers. -/
def carrying (draft : TreeDraft) (accepted : List Container) : Tree :=
  { draft.recorded.builder.tree with
    pool := draft.kept.pool.withEdges (draft.kept.edgesFrom accepted) }

variable {draft : TreeDraft} {accepted : List Container}

theorem pool_recorded (draft : TreeDraft) : draft.recorded.builder.tree.pool = draft.kept.pool := by
  have ledger := draft.ledger_recorded
  rw [← ledger.bare, Pool.bare_eq_self ledger.linked.eq_nil]

theorem carrying_nil (draft : TreeDraft) : draft.carrying [] = draft.recorded.builder.tree := by
  have bare : draft.kept.pool.withEdges (draft.kept.edgesFrom []) = draft.kept.pool.bare := rfl
  rw [carrying, bare, ← pool_recorded, draft.ledger_recorded.bare, ← pool_recorded]

theorem get?_carrying (draft : TreeDraft) (accepted : List Container) (id : NodeId) :
    (draft.carrying accepted).get? id =
      (draft.kept.pool.get? id).map fun node =>
        node.withEdges (draft.kept.edgesFrom accepted id) :=
  Pool.get?_withEdges _ _ id

theorem carrying_concat (draft : TreeDraft) (accepted : List Container) (container : Container) :
    draft.carrying (accepted ++ [container]) =
      (draft.carrying accepted).insertEdge container.parent
        (draft.kept.edgesFrom accepted container.parent).length (container.edge draft.kept) := by
  have edges : draft.kept.edgesFrom (accepted ++ [container]) = fun id =>
      draft.kept.edgesFrom accepted id ++
        if id = container.parent then [container.edge draft.kept] else [] :=
    funext (draft.kept.edgesFrom_concat accepted container)
  rw [carrying, edges, ← Pool.modify_withEdges]
  rfl

/-- The children in such a tree are those of the accepted containers. -/
theorem isChild_carrying (suits : ∀ container ∈ accepted, container.Suits draft.kept) :
    (draft.carrying accepted).IsChild = Leads (accepted.map Container.link) := by
  funext parent child
  apply propext
  constructor
  · rintro ⟨node, found, member⟩
    rw [get?_carrying] at found
    rcases Option.map_eq_some_iff.mp found with ⟨record, _, rfl⟩
    rcases List.mem_map.mp member with ⟨edge, edgeMem, rfl⟩
    rcases List.mem_map.mp edgeMem with ⟨container, containerMem, rfl⟩
    rw [List.mem_filter, decide_eq_true_eq] at containerMem
    exact List.mem_map.mpr ⟨container, containerMem.1, by rw [← containerMem.2]; rfl⟩
  · intro step
    rcases List.mem_map.mp step with ⟨container, member, same⟩
    rw [Container.link, Prod.mk.injEq] at same
    rcases same with ⟨rfl, rfl⟩
    rcases (suits container member).inner with ⟨record, found, _⟩
    refine ⟨record.withEdges (draft.kept.edgesFrom accepted container.parent), ?_, ?_⟩
    · rw [get?_carrying, found]
      rfl
    · refine List.mem_map.mpr ⟨container.edge draft.kept, ?_, rfl⟩
      exact List.mem_map_of_mem (List.mem_filter.mpr ⟨member, decide_eq_true rfl⟩)

end TreeDraft

/-- An assembly that has accepted and refused containers of a draft. -/
structure Assembly.Selecting (assembly : Assembly) (draft : TreeDraft) (accepted : List Container)
    (refused : List (Container × EditError)) : Prop where
  nodes : assembly.nodes = draft.kept.places
  states : assembly.states = draft.recorded.states
  tree : assembly.builder.tree = draft.carrying accepted
  suits : ∀ container ∈ accepted, container.Suits draft.kept
  reported : assembly.warnings.filter LoadWarning.isRejection =
    refused.map fun (container, reason) =>
      .rejectedEdge container.parentId container.childId reason

namespace Assembly.Selecting

variable {draft : TreeDraft} {assembly : Assembly} {accepted : List Container}
  {refused : List (Container × EditError)}

theorem node?_eq (selecting : assembly.Selecting draft accepted refused) (id : Int) :
    assembly.node? id = draft.kept.place? id := by
  rw [node?, selecting.nodes, Kept.place?]

theorem report (selecting : assembly.Selecting draft accepted refused) {more : List LoadWarning}
    (others : more.filter LoadWarning.isRejection = []) :
    Selecting { assembly with warnings := assembly.warnings ++ more } draft accepted refused where
  nodes := selecting.nodes
  states := selecting.states
  tree := selecting.tree
  suits := selecting.suits
  reported := by rw [List.filter_append, others, List.append_nil, selecting.reported]

theorem reject (selecting : assembly.Selecting draft accepted refused) (container : Container)
    (reason : EditError) :
    (assembly.warn (.rejectedEdge container.parentId container.childId reason)).Selecting draft
      accepted (refused ++ [(container, reason)]) where
  nodes := selecting.nodes
  states := selecting.states
  tree := selecting.tree
  suits := selecting.suits
  reported := by
    rw [List.map_append, ← selecting.reported]
    exact List.filter_append _ _

theorem accept (selecting : assembly.Selecting draft accepted refused) {container : Container}
    (fits : container.Suits draft.kept) {builder : Builder}
    (tree : builder.tree = draft.carrying (accepted ++ [container])) :
    Selecting { assembly with builder } draft (accepted ++ [container]) refused where
  nodes := selecting.nodes
  states := selecting.states
  tree := tree
  suits := by
    intro other member
    rcases List.mem_append.mp member with old | new
    · exact selecting.suits other old
    · exact List.mem_singleton.mp new ▸ fits
  reported := selecting.reported

/-- What the builder answers on a container is what a selection decides about it. -/
theorem attach (selecting : assembly.Selecting draft accepted refused) {container : Container}
    {parent child : Node} (parentFound : draft.kept.pool.get? container.parent = some parent)
    (childFound : draft.kept.pool.get? container.child = some child) :
    (∃ reason, container.Refused draft.kept accepted reason ∧
        assembly.builder.attach container.parent container.child container.bindings =
          .error reason) ∨
      container.Fits draft.kept accepted ∧ ∃ builder : Builder,
        assembly.builder.attach container.parent container.child container.bindings =
          .ok builder ∧
        builder.tree = draft.carrying (accepted ++ [container]) := by
  have parentPooled : assembly.builder.tree.get? container.parent =
      some (parent.withEdges (draft.kept.edgesFrom accepted container.parent)) := by
    rw [selecting.tree, TreeDraft.get?_carrying, parentFound]
    rfl
  have childPooled : assembly.builder.tree.get? container.child =
      some (child.withEdges (draft.kept.edgesFrom accepted container.child)) := by
    rw [selecting.tree, TreeDraft.get?_carrying, childFound]
    rfl
  have path : assembly.builder.tree.wouldCycle container.parent container.child = false ↔
      ¬ReflTransGen (Leads (accepted.map Container.link)) container.child container.parent := by
    rw [Tree.wouldCycle_eq_false_iff, ← not_reflTransGen_iff, selecting.tree,
      TreeDraft.isChild_carrying selecting.suits]
  -- The builder checks in the order in which the reasons of a refusal count.
  rw [Builder.attach_eq parentPooled childPooled]
  split
  · next leaf => exact .inl ⟨_, .leaf parentFound leaf, rfl⟩
  next inner =>
  rw [Bool.not_eq_true] at inner
  split
  · next state => exact .inl ⟨_, .state parentFound inner childFound state, rfl⟩
  next ordinary =>
  rw [Bool.not_eq_true] at ordinary
  have suits : container.Suits draft.kept := ⟨⟨parent, parentFound, inner⟩, child, childFound, ordinary⟩
  split
  · next cyclic =>
      refine .inl ⟨_, .cycle suits ?_, rfl⟩
      by_contra noPath
      rw [path.mpr noPath] at cyclic
      cases cyclic
  · next noCycle =>
      rw [Bool.not_eq_true] at noCycle
      refine .inr ⟨⟨suits, path.mp noCycle⟩, _, rfl, ?_⟩
      have edge : (⟨container.child, (child.withEdges
          (draft.kept.edgesFrom accepted container.child)).fit container.bindings⟩ : Edge) =
          container.edge draft.kept := by
        rw [Container.edge, childFound]
        rfl
      rw [edge, selecting.tree]
      exact (draft.carrying_concat accepted container).symm

theorem addChild (selecting : assembly.Selecting draft accepted refused) {entryId : Int}
    {parent : NodeId} (named : draft.kept.place? entryId = some parent) (record : ChildRecord) :
    ∃ final later, Selects draft.kept accepted
        (draft.kept.container? entryId parent record).toList final later ∧
      (assembly.addChild entryId parent record).Selecting draft final (refused ++ later) := by
  rw [Assembly.addChild, selecting.node?_eq, Kept.container?]
  rcases childNamed : draft.kept.place? record.childId with _ | child
  · refine ⟨accepted, [], .nil, ?_⟩
    rw [List.append_nil]
    exact selecting.report rfl
  · rcases Kept.exists_get?_of_place? named with ⟨parentNode, parentFound⟩
    rcases Kept.exists_get?_of_place? childNamed with ⟨childNode, childFound⟩
    have noted := selecting.report (onValues_parametersOf
      (((assembly.builder.get? parent).map Node.name).getD "") record.parameters).no_rejection
    dsimp only [Option.map_some, Option.toList_some]
    rw [result_parametersOf]
    have parentPooled : draft.kept.pool.get? (record.container entryId parent child).parent =
        some parentNode := parentFound
    have childPooled : draft.kept.pool.get? (record.container entryId parent child).child =
        some childNode := childFound
    rcases noted.attach parentPooled childPooled
      with ⟨reason, against, answered⟩ | ⟨fits, builder, answered, tree⟩
    · refine ⟨accepted, _, .refuse against .nil, ?_⟩
      dsimp only [ChildRecord.container] at answered
      rw [answered]
      exact noted.reject (record.container entryId parent child) reason
    · refine ⟨_, _, .accept fits .nil, ?_⟩
      dsimp only [ChildRecord.container] at answered
      rw [answered, List.append_nil]
      exact noted.accept fits.toSuits tree

/-- A loop over parts of the hierarchy selects among the containers of all parts, if each step selects
among those of its part. -/
theorem foldl {Part : Type} {step : Assembly → Part → Assembly}
    {containersOf : Part → List Container}
    (each : ∀ {assembly accepted refused}, assembly.Selecting draft accepted refused → ∀ part,
      ∃ final later, Selects draft.kept accepted (containersOf part) final later ∧
        (step assembly part).Selecting draft final (refused ++ later))
    (parts : List Part) (selecting : assembly.Selecting draft accepted refused) :
    ∃ final later, Selects draft.kept accepted (parts.flatMap containersOf) final later ∧
      (parts.foldl step assembly).Selecting draft final (refused ++ later) := by
  induction parts generalizing assembly accepted refused with
  | nil => exact ⟨accepted, [], .nil, by rwa [List.append_nil]⟩
  | cons part parts ih =>
      rcases each selecting part with ⟨middle, early, first, after⟩
      rcases ih after with ⟨final, late, second, last⟩
      refine ⟨final, early ++ late, first.append second, ?_⟩
      rwa [List.append_assoc] at last

theorem addHierarchy (selecting : assembly.Selecting draft accepted refused)
    (element : Value × Nat) :
    ∃ final later,
      Selects draft.kept accepted (draft.kept.containersIn element.1) final later ∧
        (assembly.addHierarchy element).Selecting draft final (refused ++ later) := by
  rw [Assembly.addHierarchy, Kept.containersIn]
  rcases HierarchyEntry.shape.decode element.1 with reason | entry
  · refine ⟨accepted, [], .nil, ?_⟩
    rw [List.append_nil]
    exact selecting.report rfl
  dsimp only
  rw [Assembly.addEntry, selecting.node?_eq]
  rcases named : draft.kept.place? entry.id with _ | parent
  · refine ⟨accepted, [], .nil, ?_⟩
    rw [List.append_nil]
    exact selecting.report rfl
  · dsimp only
    rw [List.filterMap_eq_flatMap_toList]
    exact foldl (fun selecting record => selecting.addChild named record) entry.children selecting

end Assembly.Selecting

namespace TreeDraft

theorem selecting_recorded (draft : TreeDraft) : draft.recorded.Selecting draft [] [] where
  nodes := draft.ledger_recorded.nodes
  states := rfl
  tree := draft.carrying_nil.symm
  suits := nofun
  reported := by
    have quiet := draft.ledger_recorded.reported
    rw [List.filter_eq_nil_iff] at quiet
    rw [List.map_nil, List.filter_eq_nil_iff]
    intro warning member rejection
    apply quiet warning member
    cases warning <;> first | rfl | cases rejection

theorem selecting_assembled (draft : TreeDraft) :
    ∃ accepted refused, Selects draft.kept [] draft.resolved accepted refused ∧
      draft.assembled.Selecting draft accepted refused := by
  have elements : draft.resolved =
      draft.hierarchy.zipIdx.flatMap fun element => draft.kept.containersIn element.1 := by
    rw [resolved]
    conv_lhs => rw [← List.zipIdx_map_fst 0 draft.hierarchy, List.flatMap_map]
  rw [elements]
  exact Assembly.Selecting.foldl (fun selecting element => selecting.addHierarchy element) _
    draft.selecting_recorded

end TreeDraft

/-! ## Finishing -/

theorem matchParameters_of_fitted {tree after : Tree} (fitted : tree.Fitted)
    (distinct : tree.pool.ids.Nodup) (pool : after.pool = tree.pool) :
    after.matchParameters = after :=
  (fitted.of_pool pool).matchParameters_eq (by rwa [pool])

/-- A sound assembly is finished as it stands, but for a state if it has none. -/
theorem Assembly.Sound.finish_eq {assembly : Assembly} (sound : assembly.Sound) :
    assembly.builder.finish assembly.states =
      if assembly.states = [] then
        { assembly.builder.tree.insert (Node.state defaultStateName) with
          states := [assembly.builder.tree.nextId]
          defaultState := defaultStateName }
      else { assembly.builder.tree with states := assembly.states } := by
  have known : (assembly.states.filter fun id => (assembly.builder.get? id).any Node.isState) =
      assembly.states := congrArg Tree.states sound.listed_states
  rw [Builder.finish, known]
  dsimp only
  by_cases empty : assembly.states = []
  · have coherent : (assembly.builder.tree.insert (Node.state defaultStateName)).Coherent :=
      sound.coherent.insert rfl
    have fitted : (assembly.builder.tree.insert (Node.state defaultStateName)).Fitted :=
      sound.fitted.insert sound.coherent rfl
    rw [if_pos (List.isEmpty_iff.mpr empty), if_pos empty, empty]
    exact matchParameters_of_fitted fitted coherent.nodup_ids rfl
  · rw [if_neg (mt List.isEmpty_iff.mp empty), if_neg empty]
    exact matchParameters_of_fitted sound.fitted sound.coherent.nodup_ids rfl

theorem Assembly.Sound.get?_finish {assembly : Assembly} (sound : assembly.Sound) (id : NodeId) :
    (assembly.builder.finish assembly.states).get? id =
      (assembly.builder.tree.get? id).or
        (if assembly.states = [] ∧ id = assembly.builder.tree.nextId then
          some (Node.state defaultStateName)
        else none) := by
  rw [sound.finish_eq]
  split
  · next empty =>
      simp only [empty, true_and]
      exact Tree.get?_insert ..
  · next nonempty =>
      rw [if_neg fun both => nonempty both.1, Option.or_none]
      rfl

namespace TreeDraft

variable {draft : TreeDraft}

/-- The node of a record in the loaded tree, apart from its edges. -/
def settled (draft : TreeDraft) (id : NodeId) (node : Node) : Node :=
  if draft.promotedRoot? = some id then node.promoted else node

/-- The edges from a node that are loaded: no edge leads to a root that is promoted. -/
def loadedEdges (draft : TreeDraft) (accepted : List Container) (id : NodeId) : List Edge :=
  (draft.kept.edgesFrom accepted id).filter fun edge => draft.promotedRoot? ≠ some edge.child

theorem settled_withEdges (draft : TreeDraft) (id : NodeId) (node : Node) (edges : List Edge) :
    draft.settled id (node.withEdges edges) = (draft.settled id node).withEdges edges := by
  rw [settled, settled]
  split
  · exact node.promoted_withEdges edges
  · rfl

/-- What is left of a node of an assembly when a state has been recovered. -/
def recoveredNode (draft : TreeDraft) (id : NodeId) (node : Node) : Node :=
  (draft.settled id node).withEdges
    (node.edges.filter fun edge => draft.promotedRoot? ≠ some edge.child)

theorem recoveredNode_of_none (none : draft.promotedRoot? = none) (id : NodeId) :
    draft.recoveredNode id = fun node => node := by
  funext node
  simp [recoveredNode, settled, none, Node.withEdges]

theorem get?_of_promoted {builder : Builder} {root : NodeId}
    (promoted : draft.promotedRoot? = some root)
    (done : draft.assembled.builder.promoteToState? root = some builder) (id : NodeId) :
    builder.tree.get? id =
      (draft.assembled.builder.tree.get? id).map (draft.recoveredNode id) := by
  rcases promoteToState?_eq_some done with ⟨selector, order, found, kind, rfl⟩
  refine (get?_promoted draft.assembled.builder.tree root order id).trans ?_
  refine Option.map_congr fun node nodeFound => ?_
  have edges : (fun edge : Edge => decide (draft.promotedRoot? ≠ some edge.child)) =
      fun edge => decide (edge.child ≠ root) := by
    funext edge
    simp [promoted, eq_comm]
  rw [recoveredNode, settled, edges, promoted]
  by_cases same : id = root
  · subst same
    rw [found, Option.some.injEq] at nodeFound
    simp [← nodeFound, Node.promoted, kind, Node.withEdges]
  · simp [same, Ne.symm same, Node.withEdges]

theorem get?_recovered (draft : TreeDraft) (id : NodeId) :
    draft.recovered.builder.tree.get? id =
      (draft.assembled.builder.tree.get? id).map (draft.recoveredNode id) := by
  have unchanged : draft.promotedRoot? = none → draft.assembled.builder.tree.get? id =
      (draft.assembled.builder.tree.get? id).map (draft.recoveredNode id) := by
    intro none
    rw [recoveredNode_of_none none, Option.map_id']
  rcases draft.ledger_assembled with ⟨fates, _, ledger⟩
  rw [recovered, Assembly.recovered, ledger.states_isEmpty]
  by_cases stateful : draft.kept.any (·.2.isState) = true
  · rw [if_neg (by simp [stateful])]
    exact unchanged (if_pos stateful)
  have root : draft.promotedRoot? = _ := (if_neg stateful).trans (ledger.legacyRoot?_eq draft.rootId)
  rw [Bool.not_eq_true] at stateful
  rw [if_pos (by simp [stateful]), Assembly.recoverState]
  rcases named : draft.assembled.node? (draft.rootId.getD 0) with _ | place
  · rw [named] at root
    exact unchanged root
  rcases done : draft.assembled.builder.promoteToState? place with _ | builder
  · simp only [named, done, Option.filter_some, Option.isSome_none, Bool.false_eq_true,
      ↓reduceIte] at root
    simp only [done, Option.bind_eq_bind, Option.bind_some, Option.bind_none]
    exact unchanged root
  · simp only [named, done, Option.filter_some, Option.isSome_some, ↓reduceIte] at root
    simp only [done, Option.bind_eq_bind, Option.bind_some, Option.pure_def]
    exact get?_of_promoted root done id

theorem rejections_recovered (draft : TreeDraft) :
    draft.recovered.warnings.filter LoadWarning.isRejection =
      draft.assembled.warnings.filter LoadWarning.isRejection := by
  rw [recovered, Assembly.recovered]
  split
  · rw [Assembly.recoverState]
    split <;> simp [Assembly.warn, LoadWarning.isRejection]
  · rfl

end TreeDraft

/-- A loaded tree has the edges that a selection among the containers of its document accepts, and a
warning for each container that this selection refuses. -/
structure Loaded.Selection (loaded : Loaded) (draft : TreeDraft) (accepted : List Container)
    (refused : List (Container × EditError)) : Prop where
  selects : Selects draft.kept [] draft.resolved accepted refused
  reported : loaded.warnings.filter LoadWarning.isRejection =
    refused.map fun (container, reason) =>
      .rejectedEdge container.parentId container.childId reason
  records : ∀ id node, draft.kept.pool.get? id = some node →
    loaded.tree.get? id =
      some ((draft.settled id node).withEdges (draft.loadedEdges accepted id))
  others : ∀ id node, draft.kept.pool.get? id = none → loaded.tree.get? id = some node →
    node.edges = []

theorem TreeDraft.selection_loaded (draft : TreeDraft) :
    ∃ accepted refused, draft.loaded.Selection draft accepted refused := by
  rcases draft.selecting_assembled with ⟨accepted, refused, selects, selecting⟩
  have finished : ∀ id, draft.loaded.tree.get? id = _ := draft.sound_recovered.get?_finish
  have recovered : ∀ id, draft.recovered.builder.tree.get? id =
      (draft.kept.pool.get? id).map fun node =>
        (draft.settled id node).withEdges (draft.loadedEdges accepted id) := by
    intro id
    rw [draft.get?_recovered, selecting.tree, get?_carrying, Option.map_map]
    refine Option.map_congr fun node _ => ?_
    rw [Function.comp_apply, recoveredNode, settled_withEdges]
    rfl
  refine ⟨accepted, refused, selects, ?_, ?_, ?_⟩
  · exact draft.rejections_recovered.trans selecting.reported
  · intro id node found
    rw [finished, recovered, found]
    rfl
  · intro id node missing found
    rw [finished, recovered, missing] at found
    rw [Option.map_none, Option.none_or] at found
    split at found
    · rw [← Option.some.inj found]
      rfl
    · cases found

end Document

namespace Tree

/-- The edges of a document are selected greedily: in the order of the document, every container is
accepted that closes no cycle with those accepted before it, leads from no leaf and leads to no state.
-/
theorem load_selects_edges {text : String} {draft : TreeDraft}
    (decoded : TreeDraft.shape.read text = .ok draft) :
    ∃ loaded accepted refused, load text = .ok loaded ∧
      loaded.Selection draft accepted refused ∧
      ∀ other otherRefused, Selects draft.kept [] draft.resolved other otherRefused →
        other = accepted ∧ otherRefused = refused := by
  rcases draft.selection_loaded with ⟨accepted, refused, selection⟩
  refine ⟨draft.loaded, accepted, refused, load_of_read decoded, selection, ?_⟩
  intro other otherRefused again
  exact selection.selects.unique again

/-- A document without states, with a self loop, a cycle of two, a child of an action and an edge to
the root. -/
def tangledDocument : Value :=
  .object [
    ("Behaviors", .list [
      .object [("BehaviorType", .text "Composite"), ("CompositeType", .text "Priority"),
        ("Id", .ofInt 0), ("Name", .text "Root")],
      .object [("BehaviorType", .text "Composite"), ("CompositeType", .text "Sequence"),
        ("Id", .ofInt 1)],
      .object [("BehaviorType", .text "Composite"), ("CompositeType", .text "Random"),
        ("Id", .ofInt 2)],
      .object [("BehaviorType", .text "Action"), ("Id", .ofInt 3), ("Name", .text "Go")]]),
    ("Hierarchy", .list [
      .object [("Id", .ofInt 1), ("Children", .list [
        .object [("ChildId", .ofInt 2)], .object [("ChildId", .ofInt 1)]])],
      .object [("Id", .ofInt 2), ("Children", .list [
        .object [("ChildId", .ofInt 1)], .object [("ChildId", .ofInt 3)]])],
      .object [("Id", .ofInt 3), ("Children", .list [.object [("ChildId", .ofInt 1)]])],
      .object [("Id", .ofInt 1), ("Children", .list [
        .object [("ChildId", .ofInt 0)], .object [("ChildId", .ofInt 3)]])]])]

theorem load_selects_edges_tangled :
    ∃ draft loaded accepted refused,
      TreeDraft.shape.read tangledDocument.render = .ok draft ∧
      load tangledDocument.render = .ok loaded ∧ loaded.Selection draft accepted refused ∧
      draft.promotedRoot? = some ⟨0⟩ ∧
      loaded.warnings.filter LoadWarning.isRejection =
        [.rejectedEdge 1 1 (.cycle ⟨1⟩ ⟨1⟩), .rejectedEdge 2 1 (.cycle ⟨2⟩ ⟨1⟩),
          .rejectedEdge 3 1 (.leafNode "Go")] ∧
      loaded.tree.pool.links = [(⟨1⟩, ⟨2⟩), (⟨1⟩, ⟨3⟩), (⟨2⟩, ⟨3⟩)] := by
  have computed : (TreeDraft.shape.read tangledDocument.render).toOption.map (fun draft =>
      (draft.promotedRoot?, draft.loaded.warnings.filter LoadWarning.isRejection,
        draft.loaded.tree.pool.links)) =
      some (some ⟨0⟩, [.rejectedEdge 1 1 (.cycle ⟨1⟩ ⟨1⟩), .rejectedEdge 2 1 (.cycle ⟨2⟩ ⟨1⟩),
        .rejectedEdge 3 1 (.leafNode "Go")], [(⟨1⟩, ⟨2⟩), (⟨1⟩, ⟨3⟩), (⟨2⟩, ⟨3⟩)]) := by
    rw [Shape.read, tokens_render]
    decide +kernel
  rcases exists_of_read computed with ⟨draft, decoded, summary⟩
  rcases load_selects_edges decoded with ⟨loaded, accepted, refused, done, selection, _⟩
  obtain rfl : draft.loaded = loaded := Except.ok.inj ((load_of_read decoded).symm.trans done)
  rw [Prod.mk.injEq, Prod.mk.injEq] at summary
  exact ⟨draft, _, accepted, refused, decoded, done, selection, summary⟩

end Tree

end BehaviorTree
