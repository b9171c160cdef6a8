import BehaviorTree.Proofs.Parameter
import BehaviorTree.Proofs.Tree.Runs

/-!
# Bindings in a tree

In every tree that comes from an editor or from a document the bindings of each edge are in step
with the definitions of its child.  Attaching and replacing bring them in step, changing definitions
brings every edge to the node in step, and no other edit touches either side of an edge.
-/

namespace BehaviorTree

/-- Bindings for the node, in step with its definitions if it carries any. -/
def Node.fit (node : Node) (bindings : ParameterSet) : ParameterSet :=
  node.parameters?.elim bindings bindings.matched

namespace Tree

/-- The bindings of every edge are in step with the definitions of its child. -/
def Fitted (tree : Tree) : Prop :=
  ∀ id node, tree.get? id = some node → ∀ edge ∈ node.edges, ∀ definitions,
    tree.definitions? edge.child = some definitions → edge.bindings.InStep definitions

variable {tree after : Tree}

theorem fitBindings_eq_fit {id : NodeId} {node : Node} (found : tree.get? id = some node)
    (bindings : ParameterSet) : tree.fitBindings id bindings = node.fit bindings := by
  rw [fitBindings, definitions?, found, Option.bind_some, Node.fit]
  cases node.parameters? <;> rfl

theorem inStep_fitBindings {child : NodeId} {definitions : ParameterSet} (bindings : ParameterSet)
    (found : tree.definitions? child = some definitions) :
    (tree.fitBindings child bindings).InStep definitions := by
  rw [fitBindings, found]
  exact ParameterSet.inStep_matched bindings definitions

theorem Fitted.fitBindings_eq {id : NodeId} {node : Node} {edge : Edge} (fitted : tree.Fitted)
    (found : tree.get? id = some node) (member : edge ∈ node.edges) :
    tree.fitBindings edge.child edge.bindings = edge.bindings := by
  rw [fitBindings]
  split
  · next definitions defined =>
      exact (fitted id node found edge member definitions defined).matched_eq
  · rfl

/-- Bindings in step are left as they are. -/
theorem Fitted.matchParameters_eq (fitted : tree.Fitted) (distinct : tree.pool.ids.Nodup) :
    tree.matchParameters = tree := by
  have unchanged : tree.pool.mapEdges (fun edge =>
      { edge with bindings := tree.fitBindings edge.child edge.bindings }) = tree.pool := by
    refine (List.map_congr_left fun entry member => ?_).trans (List.map_id tree.pool)
    have found : tree.get? entry.1 = some entry.2 := Pool.get?_of_mem distinct member
    have edges : (entry.2.edges.map fun edge =>
        { edge with bindings := tree.fitBindings edge.child edge.bindings }) = entry.2.edges := by
      refine (List.map_congr_left fun edge edgeMem => ?_).trans (List.map_id _)
      rw [fitted.fitBindings_eq found edgeMem]
      rfl
    simp only [edges]
    rfl
  rw [matchParameters, unchanged]

/-- Edges that come from another tree stay in step as long as their children keep their
definitions. -/
theorem Fitted.of_edges (fitted : tree.Fitted)
    (edges : ∀ id node, after.get? id = some node → ∀ edge ∈ node.edges,
      ∃ other old, tree.get? other = some old ∧ edge ∈ old.edges)
    (definitions : ∀ parent child, tree.IsChild parent child → ∀ parameters,
      after.definitions? child = some parameters → tree.definitions? child = some parameters) :
    after.Fitted := by
  intro id node found edge member parameters defined
  rcases edges id node found edge member with ⟨other, old, oldFound, oldMember⟩
  exact fitted other old oldFound edge oldMember parameters
    (definitions other edge.child ⟨old, oldFound, List.mem_map_of_mem oldMember⟩ _ defined)

theorem definitions?_of_parameters
    (same : ∀ id, (after.get? id).map Node.parameters? = (tree.get? id).map Node.parameters?)
    (id : NodeId) : after.definitions? id = tree.definitions? id := by
  have parameters := congrArg (fun carried => carried.bind fun definitions => definitions) (same id)
  simp only [Option.bind_map] at parameters
  exact parameters

theorem definitions?_modify (tree : Tree) (id : NodeId) {change : Node → Node}
    (kept : ∀ node, tree.get? id = some node → (change node).parameters? = node.parameters?)
    (other : NodeId) : (tree.modify id change).definitions? other = tree.definitions? other := by
  refine definitions?_of_parameters (fun child => ?_) other
  rw [get?_modify, Option.map_map]
  refine Option.map_congr fun node found => ?_
  simp only [Function.comp_apply]
  split
  · next same => exact kept node (same ▸ found)
  · rfl

theorem definitions?_withEdges (tree : Tree) (id : NodeId) (change : List Edge → List Edge)
    (other : NodeId) : (tree.withEdges id change).definitions? other = tree.definitions? other := by
  rw [Tree.withEdges]
  apply definitions?_modify
  exact fun _ _ => rfl

theorem definitions?_mapEdges (tree : Tree) (change : Edge → Edge) (id : NodeId) :
    Tree.definitions? { tree with pool := tree.pool.mapEdges change } id =
      tree.definitions? id := by
  refine definitions?_of_parameters (fun child => ?_) id
  simp only [get?, Pool.get?_mapEdges, Option.map_map]
  rfl

theorem Fitted.of_pool (fitted : tree.Fitted) (pool : after.pool = tree.pool) : after.Fitted := by
  rcases tree with ⟨_, _, _, _, _, _⟩
  rcases after with ⟨_, _, _, _, _, _⟩
  subst pool
  exact fitted

/-! ## Edits -/

theorem Fitted.insert {node : Node} (fitted : tree.Fitted) (coherent : tree.Coherent)
    (bare : node.edges = []) : (tree.insert node).Fitted := by
  refine fitted.of_edges ?_ ?_
  · intro id other found edge member
    rcases (get?_insert_iff coherent).mp found with old | ⟨_, rfl⟩
    · exact ⟨id, other, old, member⟩
    · simp [bare] at member
  · intro parent child step parameters defined
    rcases coherent.closed parent child step with ⟨childNode, childFound, _⟩
    have still : (tree.insert node).get? child = some childNode :=
      (get?_insert_iff coherent).mpr (.inl childFound)
    simpa only [definitions?, childFound, still] using defined

theorem fitted_new (name : String) : (new name).Fitted := by
  have empty : Tree.Fitted { name } := nofun
  exact (empty.insert (coherent_of_pool_eq_nil rfl) rfl).of_pool rfl

theorem Fitted.withoutNode (fitted : tree.Fitted) (id : NodeId) : (tree.withoutNode id).Fitted := by
  refine fitted.of_edges ?_ ?_
  · intro other newNode newFound edge member
    rcases get?_withoutNode_eq_some newFound with ⟨_, node, found, rfl⟩
    exact ⟨other, node, found, List.mem_of_mem_filter member⟩
  · intro parent child _ parameters defined
    rcases Option.bind_eq_some_iff.mp defined with ⟨newNode, newFound, carried⟩
    rcases get?_withoutNode_eq_some newFound with ⟨_, node, found, rfl⟩
    exact Option.bind_eq_some_iff.mpr ⟨node, found, carried⟩

theorem Fitted.withoutState (fitted : tree.Fitted) (id : NodeId) (name : String) :
    (tree.withoutState id name).Fitted := by
  refine fitted.of_edges ?_ ?_
  · intro other node found edge member
    exact ⟨other, node, (get?_withoutState_eq_some.mp found).2, member⟩
  · intro parent child _ parameters defined
    rcases Option.bind_eq_some_iff.mp defined with ⟨node, found, carried⟩
    exact Option.bind_eq_some_iff.mpr ⟨node, (get?_withoutState_eq_some.mp found).2, carried⟩

theorem Fitted.modify {id : NodeId} {change : Node → Node} (fitted : tree.Fitted)
    (edges : ∀ node, (change node).edges = node.edges)
    (parameters : ∀ node, tree.get? id = some node →
      (change node).parameters? = node.parameters?) : (tree.modify id change).Fitted := by
  refine fitted.of_edges ?_ ?_
  · intro other newNode newFound edge member
    rw [get?_modify] at newFound
    rcases Option.map_eq_some_iff.mp newFound with ⟨node, found, rfl⟩
    refine ⟨other, node, found, ?_⟩
    split at member
    · exact edges node ▸ member
    · exact member
  · intro parent child _ definitions defined
    rwa [definitions?_modify tree id parameters] at defined

theorem Fitted.withEdges {id : NodeId} {change : List Edge → List Edge} (fitted : tree.Fitted)
    (edges : ∀ node, tree.get? id = some node → ∀ edge ∈ change node.edges,
      edge ∈ node.edges ∨ ∀ definitions, tree.definitions? edge.child = some definitions →
        edge.bindings.InStep definitions) : (tree.withEdges id change).Fitted := by
  intro other newNode newFound edge member definitions defined
  have sameDefinitions : (tree.withEdges id change).definitions? edge.child =
      tree.definitions? edge.child := definitions?_withEdges tree id change edge.child
  rw [sameDefinitions] at defined
  rw [get?_withEdges] at newFound
  rcases Option.map_eq_some_iff.mp newFound with ⟨node, found, rfl⟩
  by_cases same : other = id
  · rw [if_pos same] at member
    rcases edges node (same ▸ found) edge member with old | inStep
    · exact fitted other node found edge old definitions defined
    · exact inStep definitions defined
  · rw [if_neg same] at member
    exact fitted other node found edge member definitions defined

theorem Fitted.insertEdge {parent child : NodeId} {position : Nat} {bindings : ParameterSet}
    (fitted : tree.Fitted) :
    (tree.insertEdge parent position ⟨child, tree.fitBindings child bindings⟩).Fitted := by
  apply fitted.withEdges
  intro node _ edge member
  rcases List.eq_or_mem_of_mem_insertIdx member with rfl | old
  · exact .inr fun definitions defined => inStep_fitBindings bindings defined
  · exact .inl old

theorem Fitted.matchParameters (tree : Tree) : tree.matchParameters.Fitted := by
  intro id newNode newFound edge member definitions defined
  have sameDefinitions : tree.matchParameters.definitions? edge.child =
      tree.definitions? edge.child := definitions?_mapEdges tree _ edge.child
  rw [sameDefinitions] at defined
  simp only [Tree.matchParameters, get?, Pool.get?_mapEdges] at newFound
  rcases Option.map_eq_some_iff.mp newFound with ⟨node, _, rfl⟩
  rcases List.mem_map.mp member with ⟨old, _, rfl⟩
  exact inStep_fitBindings old.bindings defined

/-- Other definitions of a node leave all bindings in step. -/
theorem Fitted.withDefinitions {id : NodeId} {parameters : ParameterSet} (fitted : tree.Fitted) :
    (tree.withDefinitions id parameters).Fitted := by
  intro other newNode newFound edge member definitions defined
  let changed := tree.modify id fun node => node.withParameters parameters
  have sameDefinitions : (tree.withDefinitions id parameters).definitions? edge.child =
      changed.definitions? edge.child := definitions?_mapEdges changed _ edge.child
  rw [sameDefinitions] at defined
  simp only [Tree.withDefinitions, refitted, get?, Pool.get?_mapEdges] at newFound
  rcases Option.map_eq_some_iff.mp newFound with ⟨changedNode, changedFound, rfl⟩
  rcases List.mem_map.mp member with ⟨old, oldMember, rfl⟩
  by_cases same : old.child = id
  · simp only [same, ↓reduceIte] at defined ⊢
    exact inStep_fitBindings old.bindings defined
  · simp only [same, ↓reduceIte] at defined ⊢
    have changedFound' : changed.get? other = some changedNode := changedFound
    rw [get?_modify] at changedFound'
    rcases Option.map_eq_some_iff.mp changedFound' with ⟨node, found, rfl⟩
    have oldEdges : old ∈ node.edges := by
      split at oldMember <;> exact oldMember
    apply fitted other node found old oldEdges definitions
    rw [← defined, definitions?, definitions?, get?_modify]
    cases tree.get? old.child with
    | none => rfl
    | some child => simp [same]

theorem parameters?_withProperty (node : Node) (property : Property) :
    (node.withProperty property).parameters? = node.parameters? := by
  rcases node with ⟨_, _, _, _, _ | _ | _ | _ | _, _⟩ <;> cases property <;> rfl

theorem parameters?_withParameters {node : Node} {definitions : ParameterSet}
    (carried : node.parameters? = some definitions) (parameters : ParameterSet) :
    (node.withParameters parameters).parameters? = some parameters := by
  rcases node with ⟨_, _, _, _, _ | _ | _ | _ | _, _⟩
  case action | condition | decorator => rfl
  all_goals cases carried

/-- A definition with another default leaves all bindings in step. -/
theorem Fitted.setParameterDefault {id : NodeId} {node : Node} {definitions : ParameterSet}
    (fitted : tree.Fitted) (found : tree.get? id = some node)
    (carried : node.parameters? = some definitions) (name value : String) :
    (tree.modify id fun node => node.withParameters (definitions.assign name value)).Fitted := by
  intro other newNode newFound edge member parameters defined
  rw [get?_modify] at newFound
  rcases Option.map_eq_some_iff.mp newFound with ⟨otherNode, otherFound, rfl⟩
  have oldMember : edge ∈ otherNode.edges := by
    split at member <;> exact member
  have inStep := fitted other otherNode otherFound edge oldMember
  rw [definitions?, get?_modify] at defined
  by_cases same : edge.child = id
  · subst same
    rw [found, Option.map_some, if_pos rfl, Option.bind_some,
      parameters?_withParameters carried, Option.some.injEq] at defined
    subst defined
    refine (inStep definitions ?_).assign_definition name value
    rw [definitions?, found, Option.bind_some, carried]
  · apply inStep parameters
    rw [← defined, definitions?]
    cases tree.get? edge.child with
    | none => rfl
    | some child => simp [same]

end Tree

/-! ## Runs -/

/-- An accepted edit leaves all bindings in step. -/
theorem Edit.Accepted.fitted {tree after : Tree} {edit : Edit} {answer : Answer}
    (accepted : edit.Accepted tree answer after) (bare : edit.IsBare) (coherent : tree.Coherent)
    (fitted : tree.Fitted) : after.Fitted := by
  cases accepted with
  | addNode ordinary => exact fitted.insert coherent bare
  | deleteNode found detached => exact fitted.withoutNode _
  | addState identifier fresh => exact (fitted.insert coherent rfl).of_pool rfl
  | removeState found state others => exact fitted.withoutState _ _
  | setDefaultState known => exact fitted.of_pool rfl
  | setName => exact fitted.of_pool rfl
  | setExpandMethods => exact fitted.of_pool rfl
  | @rename id node name found identifier unshared =>
      have renamed : (tree.modify id fun node => { node with name }).Fitted :=
        fitted.modify (fun _ => rfl) fun _ _ => rfl
      exact renamed.of_pool rfl
  | setWeight found positive finite => exact fitted.modify (fun _ => rfl) fun _ _ => rfl
  | setComposite found kind same =>
      refine fitted.modify (fun _ => rfl) fun node nodeFound => ?_
      rw [found, Option.some.injEq] at nodeFound
      simp only [Node.parameters?, NodeKind.parameters?, ← nodeFound, kind]
  | addChild attached =>
      rcases Tree.attached_eq_ok_iff.mp attached with ⟨_, _, _, _, _, rfl⟩
      exact fitted.insertEdge
  | insertChild attached =>
      rcases Tree.attached_eq_ok_iff.mp attached with ⟨_, _, _, _, _, rfl⟩
      exact fitted.insertEdge
  | removeChild found position edgeFound =>
      exact fitted.withEdges fun _ _ edge member => .inl (List.mem_of_mem_eraseIdx member)
  | moveChild found edgeFound inRange =>
      refine fitted.withEdges fun node nodeFound edge member => .inl ?_
      rw [found, Option.some.injEq] at nodeFound
      subst nodeFound
      rcases List.eq_or_mem_of_mem_insertIdx member with rfl | old
      · exact List.mem_of_getElem? edgeFound
      · exact List.mem_of_mem_eraseIdx old
  | replaceChild found position childFound ordinary notSame notAbove =>
      refine fitted.withEdges fun _ _ edge member => ?_
      rcases Tree.mem_modify member with old | ⟨old, _, rfl⟩
      · exact .inl old
      · exact .inr fun definitions defined => Tree.inStep_fitBindings old.bindings defined
  | addParameter found carried added => exact fitted.withDefinitions
  | removeParameter found carried defined => exact fitted.withDefinitions
  | setParameterDefault found carried defined => exact fitted.setParameterDefault found carried _ _
  | @setBinding id node index edge name value found edgeFound bound =>
      refine fitted.withEdges fun other otherFound changed member => ?_
      rcases Tree.mem_modify member with old | ⟨old, oldMember, rfl⟩
      · exact .inl old
      · exact .inr fun definitions defined =>
          (fitted id other otherFound old oldMember definitions defined).assign_binding name value
  | matchParameters => exact Tree.Fitted.matchParameters tree
  | setProperties =>
      exact fitted.modify
        (fun node => Tree.foldl_withProperty Node.edges Tree.edges_withProperty _ node)
        fun node _ => Tree.foldl_withProperty Node.parameters? Tree.parameters?_withProperty _ node

theorem Edit.fitted_applyAll {tree : Tree} (edits : List Edit) (bare : ∀ edit ∈ edits, edit.IsBare)
    (rooted : tree.Rooted) (fitted : tree.Fitted) : (applyAll edits tree).Fitted := by
  have both : (applyAll edits tree).Rooted ∧ (applyAll edits tree).Fitted := by
    refine applyAll_keeps (fun (later : Tree) (both : later.Rooted ∧ later.Fitted) => both.1) ?_
      edits bare ⟨rooted, fitted⟩
    intro before edit answer after both bare accepted
    exact ⟨accepted.rooted bare both.1, accepted.fitted bare both.1.toCoherent both.2⟩
  exact both.2

end BehaviorTree
