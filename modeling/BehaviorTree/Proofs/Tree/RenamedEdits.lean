import BehaviorTree.Proofs.Tree.Renaming

/-!
# Edits under other identities

An edit goes the same way in a tree and in its renaming: both refuse it for the same reason, or both
accept it and are renamed again, with a new node under the identity that each of them has given it.
The steps of both trees are compared by rules, one for each way in which steps are put together.
-/

namespace BehaviorTree

open BehaviorTree.Number

/-! ## Other identities -/

/-- The refusal with other identities. -/
def EditError.renamed (place : NodeId → NodeId) : EditError → EditError
  | unknownNode id => unknownNode (place id)
  | cycle parent child => cycle (place parent) (place child)
  | notAChild parent child => notAChild (place parent) (place child)
  | notAState id => notAState (place id)
  | refusal => refusal

/-- The answer with other identities. -/
def Answer.renamed (place : NodeId → NodeId) : Answer → Answer
  | id created => id (place created)
  | node given => node (given.renamed place)
  | answer => answer

/-- The identities after an answer: what both trees have just created has the same place. -/
def Answer.extended (place : NodeId → NodeId) : Answer → Answer → NodeId → NodeId
  | id created, id copied => Function.update place created copied
  | _, _ => place

namespace Edit

/-- The edit with other identities. -/
def renamed (place : NodeId → NodeId) : Edit → Edit
  | addNode node => addNode (node.renamed place)
  | deleteNode id => deleteNode (place id)
  | addState name => addState name
  | removeState id => removeState (place id)
  | setDefaultState name => setDefaultState name
  | setName name => setName name
  | setExpandMethods expand => setExpandMethods expand
  | rename id name => rename (place id) name
  | setWeight id weight => setWeight (place id) weight
  | setComposite id composite => setComposite (place id) composite
  | addChild parent child bindings => addChild (place parent) (place child) bindings
  | insertChild parent index child bindings =>
      insertChild (place parent) index (place child) bindings
  | removeChild parent child => removeChild (place parent) (place child)
  | moveChild parent origin destination => moveChild (place parent) origin destination
  | replaceChild parent old new => replaceChild (place parent) (place old) (place new)
  | addParameter id parameter => addParameter (place id) parameter
  | removeParameter id name => removeParameter (place id) name
  | setParameterDefault id name value => setParameterDefault (place id) name value
  | setBinding parent index name value => setBinding (place parent) index name value
  | matchParameters => matchParameters
  | setProperties id properties => setProperties (place id) properties

/-- The identities that an edit names. -/
def named : Edit → List NodeId
  | addNode node => node.children
  | deleteNode id | removeState id | rename id _ | setWeight id _ | setComposite id _
  | addParameter id _ | removeParameter id _ | setParameterDefault id _ _
  | setProperties id _ => [id]
  | addChild parent child _ | insertChild parent _ child _ | removeChild parent child =>
      [parent, child]
  | moveChild parent _ _ | setBinding parent _ _ _ => [parent]
  | replaceChild parent old new => [parent, old, new]
  | addState _ | setDefaultState _ | setName _ | setExpandMethods _ | matchParameters => []

end Edit

theorem Node.renamed_of_bare {node : Node} (bare : node.edges = []) (place : NodeId → NodeId) :
    node.renamed place = node := by
  rcases node with ⟨_, _, _, _, _, edges⟩
  subst bare
  rfl

theorem Edge.modify_map_renamed {place : NodeId → NodeId} {change copied : Edge → Edge}
    {edges : List Edge} {index : Nat}
    (same : ∀ edge, copied (edge.renamed place) = (change edge).renamed place) :
    (edges.map (Edge.renamed place)).modify index copied =
      (edges.modify index change).map (Edge.renamed place) := by
  apply List.ext_getElem?
  intro position
  simp only [List.getElem?_modify, List.getElem?_map, Option.map_eq_map, Option.map_map]
  apply Option.map_congr
  intro edge _
  simp only [Function.comp_apply]
  split
  · exact same edge
  · rfl

theorem foldl_withProperty_renamed {place : NodeId → NodeId} (properties : List Property)
    (node : Node) :
    properties.foldl Node.withProperty (node.renamed place) =
      (properties.foldl Node.withProperty node).renamed place := by
  induction properties generalizing node with
  | nil => rfl
  | cons property properties ih =>
      rw [List.foldl_cons, List.foldl_cons, ← ih]
      cases property <;> rfl

/-- Refusing a parameter names no node. -/
theorem ParameterSet.renamed_of_add_eq_error {definitions : ParameterSet} {parameter : Parameter}
    {refusal : EditError} {place : NodeId → NodeId}
    (refused : definitions.add parameter = .error refusal) : refusal.renamed place = refusal := by
  unfold add at refused
  split at refused
  · cases refused
    rfl
  · split at refused <;> cases refused
    rfl

/-! ## Steps in two trees -/

namespace Editing

variable {α β : Type} {place : NodeId → NodeId} {tree copy : Tree}
  {related : α → Tree → α → Tree → Prop}

/-- Two steps in two trees both refuse, for the same reason and without a change, or both answer, and
what they answer and leave behind is related. -/
def Parallels (place : NodeId → NodeId) (tree copy : Tree) (step copied : Editing α)
    (related : α → Tree → α → Tree → Prop) : Prop :=
  (∃ refusal, step.run tree = (.error refusal, tree) ∧
      copied.run copy = (.error (refusal.renamed place), copy)) ∨
    ∃ answer after copiedAnswer copiedAfter, step.run tree = (.ok answer, after) ∧
      copied.run copy = (.ok copiedAnswer, copiedAfter) ∧
      related answer after copiedAnswer copiedAfter

/-! ### Rules -/

theorem parallels_of_ok {step copied : Editing α} {after copiedAfter : Tree}
    {answer copiedAnswer : α} (done : step.run tree = (.ok answer, after))
    (copiedDone : copied.run copy = (.ok copiedAnswer, copiedAfter))
    (holds : related answer after copiedAnswer copiedAfter) :
    Parallels place tree copy step copied related :=
  .inr ⟨answer, after, copiedAnswer, copiedAfter, done, copiedDone, holds⟩

theorem parallels_throw {refusal copiedRefusal : EditError}
    (same : copiedRefusal = refusal.renamed place) :
    Parallels place tree copy (throw refusal) (throw copiedRefusal) related := by
  subst same
  exact .inl ⟨refusal, rfl, rfl⟩

theorem parallels_throw_bind {refusal copiedRefusal : EditError} {next copied : β → Editing α}
    (same : copiedRefusal = refusal.renamed place) :
    Parallels place tree copy (throw refusal >>= next) (throw copiedRefusal >>= copied)
      related := by
  subst same
  exact .inl ⟨refusal, rfl, rfl⟩

theorem parallels_ite {condition copiedCondition : Prop} [Decidable condition]
    [Decidable copiedCondition] {yes no copiedYes copiedNo : Editing α}
    (same : copiedCondition ↔ condition)
    (whenTrue : condition → Parallels place tree copy yes copiedYes related)
    (whenFalse : ¬condition → Parallels place tree copy no copiedNo related) :
    Parallels place tree copy (if condition then yes else no)
      (if copiedCondition then copiedYes else copiedNo) related := by
  by_cases holds : condition
  · rw [if_pos holds, if_pos (same.mpr holds)]
    exact whenTrue holds
  · rw [if_neg holds, if_neg (mt same.mp holds)]
    exact whenFalse holds

theorem parallels_get_bind {next copied : Tree → Editing α}
    (rest : Parallels place tree copy (next tree) (copied copy) related) :
    Parallels place tree copy (get >>= next) (get >>= copied) related := by
  simpa only [Parallels, run_bind, run_get] using rest

theorem parallels_require_bind {id : NodeId} {next copied : Node → Editing α}
    (renames : tree.Renames place copy) (pooled : id ∈ tree.pool.ids)
    (rest : ∀ node, tree.get? id = some node →
      Parallels place tree copy (next node) (copied (node.renamed place)) related) :
    Parallels place tree copy (require id >>= next) (require (place id) >>= copied) related := by
  rcases Tree.exists_get? pooled with ⟨node, stored⟩
  simp only [Parallels, run_bind, run_require, stored, renames.nodes id node stored]
  exact rest node stored

theorem parallels_bind_pure {step copied : Editing β} {form : β → α}
    (rest : Parallels place tree copy step copied fun answer after copiedAnswer copiedAfter =>
      related (form answer) after (form copiedAnswer) copiedAfter) :
    Parallels place tree copy (step >>= fun answer => pure (form answer))
      (copied >>= fun answer => pure (form answer)) related := by
  simp only [Parallels, run_bind, run_pure]
  rcases rest with ⟨refusal, refused, copiedRefused⟩ | ⟨_, _, _, _, done, copiedDone, holds⟩
  · exact .inl ⟨refusal, by rw [refused], by rw [copiedRefused]⟩
  · exact .inr ⟨_, _, _, _, by rw [done], by rw [copiedDone], holds⟩

theorem parallels_definitions_bind {id : NodeId} {next copied : ParameterSet → Editing α}
    (renames : tree.Renames place copy) (pooled : id ∈ tree.pool.ids)
    (rest : ∀ node definitions, tree.get? id = some node → node.parameters? = some definitions →
      Parallels place tree copy (next definitions) (copied definitions) related) :
    Parallels place tree copy (definitions id >>= next) (definitions (place id) >>= copied)
      related := by
  rcases Tree.exists_get? pooled with ⟨node, stored⟩
  have same : (node.renamed place).parameters? = node.parameters? := rfl
  simp only [Parallels, definitions, run_bind, run_require, stored, renames.nodes id node stored,
    same]
  rcases carried : node.parameters? with _ | definitions
  · exact .inl ⟨.noParameters node.name, rfl, rfl⟩
  · exact rest node definitions stored carried

/-! ### Edits -/

/-- What edits answer and leave behind corresponds, with a new node in its place. -/
def Corresponds (place : NodeId → NodeId) (answer : Answer) (after : Tree) (copied : Answer)
    (copiedAfter : Tree) : Prop :=
  copied = answer.renamed (answer.extended place copied) ∧
    after.Renames (answer.extended place copied) copiedAfter

/-- An edit goes the same way in both trees. -/
abbrev GoesAlike (place : NodeId → NodeId) (tree copy : Tree) (edit : Edit) : Prop :=
  Parallels place tree copy edit.step (edit.renamed place).step (Corresponds place)

theorem corresponds_created {after copiedAfter : Tree} {created copiedCreated : NodeId}
    (renames : after.Renames (Function.update place created copiedCreated) copiedAfter) :
    Corresponds place (.id created) after (.id copiedCreated) copiedAfter := by
  refine ⟨?_, renames⟩
  simp [Answer.renamed, Answer.extended]

section

variable (renames : tree.Renames place copy) (rooted : tree.Rooted)
include renames rooted

/-! #### The pool and the states -/

theorem goesAlike_addNode (copied : copy.Rooted) {node : Node} (bare : node.edges = []) :
    GoesAlike place tree copy (.addNode node) := by
  apply parallels_bind_pure
  apply parallels_ite Iff.rfl
  · intro _
    exact parallels_throw_bind rfl
  · intro _
    refine parallels_of_ok rfl rfl ?_
    apply corresponds_created
    have inserted := (renames.renew rooted).insert rooted.toCoherent copied.toCoherent
      (Function.update_self ..) node
    rwa [node.renamed_of_bare bare] at inserted ⊢

theorem goesAlike_deleteNode (copied : copy.Rooted) {id : NodeId}
    (pooled : id ∈ tree.pool.ids) : GoesAlike place tree copy (.deleteNode id) := by
  rcases Tree.exists_get? pooled with ⟨node, stored⟩
  rw [GoesAlike, Parallels, Edit.renamed, run_deleteNode, run_deleteNode, stored,
    renames.nodes id node stored, renames.isInHierarchy rooted copied pooled]
  by_cases reached : tree.isInHierarchy id
  · simp only [reached, if_true]
    exact .inl ⟨_, rfl, rfl⟩
  · simp only [reached]
    refine .inr ⟨_, _, _, _, rfl, rfl, ?_, renames.withoutNode rooted.toCoherent pooled⟩
    rw [renames.detachedFrom rooted.toCoherent stored pooled]
    rfl

theorem goesAlike_addState (copied : copy.Rooted) (name : String) :
    GoesAlike place tree copy (.addState name) := by
  apply parallels_bind_pure
  apply parallels_ite Iff.rfl
  · intro _
    exact parallels_throw_bind rfl
  · intro _
    apply parallels_get_bind
    apply parallels_ite
    · rw [(renames.mirrors rooted).hasState]
    · intro _
      exact parallels_throw_bind rfl
    · intro _
      refine parallels_of_ok rfl rfl ?_
      apply corresponds_created
      exact (renames.renew rooted).insertState rooted.toCoherent copied.toCoherent
        (Function.update_self ..) name

theorem goesAlike_removeState {id : NodeId} (pooled : id ∈ tree.pool.ids) :
    GoesAlike place tree copy (.removeState id) := by
  rcases Tree.exists_get? pooled with ⟨node, stored⟩
  have lengths : copy.states.length = tree.states.length := by
    rw [renames.states, List.length_map]
  rw [GoesAlike, Parallels, Edit.renamed, run_removeState, run_removeState, stored,
    renames.nodes id node stored, lengths]
  simp only [renames.mem_states_iff rooted pooled]
  by_cases state : id ∈ tree.states
  · by_cases last : tree.states.length = 1
    · simp only [state, last, not_true, if_false, if_true]
      exact .inl ⟨_, rfl, rfl⟩
    · simp only [state, last, not_true, if_false]
      exact .inr ⟨_, _, _, _, rfl, rfl, rfl, renames.withoutState rooted state last _⟩
  · simp only [state, not_false_eq_true, if_true]
    exact .inl ⟨_, rfl, rfl⟩

theorem goesAlike_setDefaultState (name : String) :
    GoesAlike place tree copy (.setDefaultState name) := by
  apply parallels_bind_pure
  apply parallels_get_bind
  apply parallels_ite
  · rw [(renames.mirrors rooted).hasState]
  · intro _
    exact parallels_of_ok rfl rfl ⟨rfl, { renames with defaultState := rfl }⟩
  · intro _
    exact parallels_throw rfl

/-! #### Properties -/

theorem goesAlike_rename {id : NodeId} (pooled : id ∈ tree.pool.ids) (name : String) :
    GoesAlike place tree copy (.rename id name) := by
  apply parallels_bind_pure
  apply parallels_ite Iff.rfl
  · intro _
    exact parallels_throw_bind rfl
  intro _
  apply parallels_get_bind
  apply parallels_ite
  · rw [renames.mem_states_iff rooted pooled, (renames.mirrors rooted).state?]
    apply and_congr_right
    intro _
    rcases named : tree.state? name with _ | other
    · rfl
    · have otherPooled := rooted.orderly.pooled other (Tree.state?_eq_some named).1
      simp [renames.place_inj otherPooled pooled]
  · intro _
    exact parallels_throw_bind rfl
  · intro _
    apply parallels_require_bind renames pooled
    intro node found
    apply parallels_of_ok (run_renaming ..) (run_renaming ..)
    exact ⟨rfl, renames.withName rooted found name⟩

omit rooted in
theorem goesAlike_setWeight {id : NodeId} (pooled : id ∈ tree.pool.ids) (weight : Single) :
    GoesAlike place tree copy (.setWeight id weight) := by
  apply parallels_bind_pure
  apply parallels_ite Iff.rfl
  · intro _
    exact parallels_throw_bind rfl
  · intro _
    apply parallels_require_bind renames pooled
    intro node _
    refine parallels_of_ok rfl rfl ?_
    exact ⟨rfl, renames.modify pooled fun _ _ => rfl⟩

omit rooted in
theorem goesAlike_setComposite {id : NodeId} (pooled : id ∈ tree.pool.ids)
    (composite : Composite) : GoesAlike place tree copy (.setComposite id composite) := by
  apply parallels_bind_pure
  apply parallels_require_bind renames pooled
  intro node _
  simp only [Node.kind_renamed]
  cases node.kind with
  | composite current =>
      apply parallels_ite Iff.rfl
      · intro _
        exact parallels_throw_bind rfl
      · intro _
        refine parallels_of_ok rfl rfl ?_
        exact ⟨rfl, renames.modify pooled fun _ _ => rfl⟩
  | action | condition | decorator | changeState => exact parallels_throw rfl

omit rooted in
theorem goesAlike_setProperties {id : NodeId} (pooled : id ∈ tree.pool.ids)
    (properties : List Property) : GoesAlike place tree copy (.setProperties id properties) := by
  refine parallels_of_ok rfl rfl ?_
  refine ⟨?_, renames.modify pooled fun node _ => ?_⟩
  · rw [renames.contains pooled]
    rfl
  · exact foldl_withProperty_renamed properties node

/-! #### Parameters -/

theorem goesAlike_addParameter {id : NodeId} (pooled : id ∈ tree.pool.ids)
    (parameter : Parameter) : GoesAlike place tree copy (.addParameter id parameter) := by
  apply parallels_bind_pure
  apply parallels_definitions_bind renames pooled
  intro node definitions _ _
  rcases added : definitions.add parameter with refusal | extended
  · exact parallels_throw (ParameterSet.renamed_of_add_eq_error added).symm
  · refine parallels_of_ok rfl rfl ?_
    exact ⟨rfl, renames.withDefinitions rooted.toCoherent pooled extended⟩

theorem goesAlike_removeParameter {id : NodeId} (pooled : id ∈ tree.pool.ids) (name : String) :
    GoesAlike place tree copy (.removeParameter id name) := by
  apply parallels_bind_pure
  apply parallels_definitions_bind renames pooled
  intro node definitions _ _
  rcases definitions.find name with _ | removed
  · exact parallels_throw rfl
  · refine parallels_of_ok rfl rfl ?_
    exact ⟨rfl, renames.withDefinitions rooted.toCoherent pooled _⟩

omit rooted in
theorem goesAlike_setParameterDefault {id : NodeId} (pooled : id ∈ tree.pool.ids)
    (name value : String) : GoesAlike place tree copy (.setParameterDefault id name value) := by
  apply parallels_bind_pure
  apply parallels_definitions_bind renames pooled
  intro node definitions _ _
  apply parallels_ite Iff.rfl
  · intro _
    refine parallels_of_ok rfl rfl ?_
    exact ⟨rfl, renames.modify pooled fun _ _ => rfl⟩
  · intro _
    exact parallels_throw rfl

omit rooted in
theorem goesAlike_setBinding {id : NodeId} (pooled : id ∈ tree.pool.ids) (index : Nat)
    (name value : String) : GoesAlike place tree copy (.setBinding id index name value) := by
  apply parallels_bind_pure
  apply parallels_require_bind renames pooled
  intro node _
  simp only [Node.edges_renamed, List.getElem?_map, List.length_map]
  rcases node.edges[index]? with _ | edge
  · exact parallels_throw rfl
  · apply parallels_ite Iff.rfl
    · intro _
      refine parallels_of_ok rfl rfl ?_
      refine ⟨rfl, renames.withEdges pooled fun node _ => ?_⟩
      exact Edge.modify_map_renamed fun _ => rfl
    · intro _
      exact parallels_throw rfl

/-! #### Children -/

theorem attachPosition_renamed {parentId childId : NodeId} (editing : Bool)
    (parentPooled : parentId ∈ tree.pool.ids) (childPooled : childId ∈ tree.pool.ids)
    (index : Option Nat) :
    copy.attachPosition editing (place parentId) index (place childId) =
      (tree.attachPosition editing parentId index childId).mapError (EditError.renamed place) := by
  rcases Tree.exists_get? parentPooled with ⟨parent, stored⟩
  rcases Tree.exists_get? childPooled with ⟨child, childStored⟩
  have leaf : (parent.renamed place).isLeaf = parent.isLeaf := rfl
  have state : (child.renamed place).isState = child.isState := rfl
  simp only [Tree.attachPosition, stored, childStored, renames.nodes parentId parent stored,
    renames.nodes childId child childStored, leaf, state, Node.kind_renamed, Node.edges_renamed,
    List.length_map, Node.name_renamed,
    renames.wouldCycle rooted.toCoherent parentPooled childPooled]
  split
  · rfl
  split
  · rfl
  split
  · rfl
  split
  · rfl
  split
  · rfl
  · rfl

theorem goesAlike_attach {parent child : NodeId} (parentPooled : parent ∈ tree.pool.ids)
    (childPooled : child ∈ tree.pool.ids) (index : Option Nat) (bindings : ParameterSet) :
    Parallels place tree copy
      (attach parent index child bindings >>= fun _ => pure .done)
      (attach (place parent) index (place child) bindings >>= fun _ => pure .done)
      (Corresponds place) := by
  apply parallels_bind_pure
  apply parallels_get_bind
  rw [Tree.attached, Tree.attached,
    attachPosition_renamed renames rooted true parentPooled childPooled index]
  rcases tree.attachPosition true parent index child with refusal | position
  · exact parallels_throw rfl
  · refine parallels_of_ok rfl rfl ⟨rfl, ?_⟩
    rw [renames.fitBindings childPooled]
    exact renames.insertEdge parentPooled position ⟨child, _⟩

theorem goesAlike_removeChild {id child : NodeId} (pooled : id ∈ tree.pool.ids)
    (childPooled : child ∈ tree.pool.ids) :
    GoesAlike place tree copy (.removeChild id child) := by
  apply parallels_bind_pure
  apply parallels_require_bind renames pooled
  intro node found
  simp only [renames.indexOf? rooted.toCoherent found childPooled]
  rcases node.indexOf? child with _ | index
  · exact parallels_throw rfl
  simp only [Node.edges_renamed, List.getElem?_map, List.length_map]
  rcases node.edges[index]? with _ | edge
  · exact parallels_throw rfl
  · have removed : (tree.withEdges id fun edges => edges.eraseIdx index).Renames place
        (copy.withEdges (place id) fun edges => edges.eraseIdx index) := by
      apply renames.withEdges pooled
      intro node _
      exact List.eraseIdx_map ..
    exact parallels_of_ok rfl rfl ⟨rfl, removed⟩

omit rooted in
theorem goesAlike_moveChild {id : NodeId} (pooled : id ∈ tree.pool.ids)
    (origin destination : Nat) : GoesAlike place tree copy (.moveChild id origin destination) := by
  apply parallels_bind_pure
  apply parallels_require_bind renames pooled
  intro node _
  simp only [Node.edges_renamed, List.length_map, List.getElem?_map]
  apply parallels_ite Iff.rfl
  · intro _
    exact parallels_throw_bind rfl
  intro _
  apply parallels_ite Iff.rfl
  · intro _
    exact parallels_throw_bind rfl
  intro _
  rcases node.edges[origin]? with _ | edge
  · exact parallels_throw rfl
  · have moved : (tree.withEdges id fun edges =>
        (edges.eraseIdx origin).insertIdx destination edge).Renames place
          (copy.withEdges (place id) fun edges =>
            (edges.eraseIdx origin).insertIdx destination (edge.renamed place)) := by
      apply renames.withEdges pooled
      intro node _
      rw [List.map_insertIdx, List.eraseIdx_map]
    exact parallels_of_ok rfl rfl ⟨rfl, moved⟩

theorem goesAlike_replaceChild {id old new : NodeId} (pooled : id ∈ tree.pool.ids)
    (oldPooled : old ∈ tree.pool.ids) (newPooled : new ∈ tree.pool.ids) :
    GoesAlike place tree copy (.replaceChild id old new) := by
  apply parallels_bind_pure
  apply parallels_require_bind renames pooled
  intro node found
  simp only [renames.indexOf? rooted.toCoherent found oldPooled]
  rcases node.indexOf? old with _ | index
  · exact parallels_throw rfl
  apply parallels_require_bind renames newPooled
  intro child _
  apply parallels_ite Iff.rfl
  · intro _
    exact parallels_throw_bind rfl
  intro _
  apply parallels_get_bind
  apply parallels_ite
  · rw [renames.wouldCycle rooted.toCoherent pooled newPooled]
  · intro _
    exact parallels_throw_bind rfl
  · intro _
    refine parallels_of_ok rfl rfl ?_
    refine ⟨rfl, renames.withEdges pooled fun node _ => ?_⟩
    apply Edge.modify_map_renamed
    intro edge
    simp only [Edge.renamed, renames.fitBindings newPooled]

/-- Every edit that names pooled nodes goes the same way in both trees. -/
theorem goesAlike (copied : copy.Rooted) {edit : Edit} (bare : edit.IsBare)
    (pooled : ∀ id ∈ edit.named, id ∈ tree.pool.ids) : GoesAlike place tree copy edit := by
  cases edit with
  | addNode node => exact goesAlike_addNode renames rooted copied bare
  | addState name => exact goesAlike_addState renames rooted copied name
  | setDefaultState name => exact goesAlike_setDefaultState renames rooted name
  | setName name => exact parallels_of_ok rfl rfl ⟨rfl, { renames with name := rfl }⟩
  | setExpandMethods expand =>
      exact parallels_of_ok rfl rfl ⟨rfl, { renames with expandMethods := rfl }⟩
  | matchParameters =>
      exact parallels_of_ok rfl rfl ⟨rfl, renames.matchParameters rooted.toCoherent⟩
  | deleteNode id =>
      exact goesAlike_deleteNode renames rooted copied (pooled id (List.mem_singleton_self _))
  | removeState id =>
      exact goesAlike_removeState renames rooted (pooled id (List.mem_singleton_self _))
  | rename id name =>
      exact goesAlike_rename renames rooted (pooled id (List.mem_singleton_self _)) name
  | setWeight id weight =>
      exact goesAlike_setWeight renames (pooled id (List.mem_singleton_self _)) weight
  | setComposite id composite =>
      exact goesAlike_setComposite renames (pooled id (List.mem_singleton_self _)) composite
  | setProperties id properties =>
      exact goesAlike_setProperties renames (pooled id (List.mem_singleton_self _)) properties
  | addParameter id parameter =>
      exact goesAlike_addParameter renames rooted (pooled id (List.mem_singleton_self _)) parameter
  | removeParameter id name =>
      exact goesAlike_removeParameter renames rooted (pooled id (List.mem_singleton_self _)) name
  | setParameterDefault id name value =>
      exact goesAlike_setParameterDefault renames (pooled id (List.mem_singleton_self _)) name value
  | setBinding parent index name value =>
      exact goesAlike_setBinding renames (pooled parent (List.mem_singleton_self _)) index name
        value
  | moveChild parent origin destination =>
      exact goesAlike_moveChild renames (pooled parent (List.mem_singleton_self _)) origin
        destination
  | removeChild parent child =>
      simp only [Edit.named, List.forall_mem_cons] at pooled
      exact goesAlike_removeChild renames rooted pooled.1 pooled.2.1
  | addChild parent child bindings =>
      simp only [Edit.named, List.forall_mem_cons] at pooled
      exact goesAlike_attach renames rooted pooled.1 pooled.2.1 none bindings
  | insertChild parent index child bindings =>
      simp only [Edit.named, List.forall_mem_cons] at pooled
      exact goesAlike_attach renames rooted pooled.1 pooled.2.1 (some index) bindings
  | replaceChild parent old new =>
      simp only [Edit.named, List.forall_mem_cons] at pooled
      exact goesAlike_replaceChild renames rooted pooled.1 pooled.2.1 pooled.2.2.1

end

end Editing

/-! ## Runs -/

namespace Edit

/-- A run of edits goes the same way in both trees for as long as its edits name pooled nodes, and
leaves them renamed after each of its edits. -/
def RunsAlike : List Edit → (NodeId → NodeId) → Tree → Tree → Prop
  | [], place, tree, copy => tree.Renames place copy
  | edit :: edits, place, tree, copy =>
      tree.Renames place copy ∧ ((∀ id ∈ edit.named, id ∈ tree.pool.ids) →
        (∃ refusal, edit.apply tree = (.error refusal, tree) ∧
          (edit.renamed place).apply copy = (.error (refusal.renamed place), copy) ∧
          RunsAlike edits place tree copy) ∨
        ∃ answer after copied copiedAfter, edit.apply tree = (.ok answer, after) ∧
          (edit.renamed place).apply copy = (.ok copied, copiedAfter) ∧
          copied = answer.renamed (answer.extended place copied) ∧
          RunsAlike edits (answer.extended place copied) after copiedAfter)

theorem IsBare.renamed {edit : Edit} (bare : edit.IsBare) (place : NodeId → NodeId) :
    (edit.renamed place).IsBare := by
  cases edit with
  | addNode node => simpa [Edit.renamed, IsBare] using bare
  | _ => trivial

theorem rooted_of_apply {tree after : Tree} {edit : Edit} {outcome : Except EditError Answer}
    (rooted : tree.Rooted) (bare : edit.IsBare) (applied : edit.apply tree = (outcome, after)) :
    after.Rooted := by
  have kept := rooted_applyAll [edit] (List.forall_mem_singleton.mpr bare) rooted
  rwa [applyAll, List.foldl_cons, applied, List.foldl_nil] at kept

theorem runsAlike (edits : List Edit) (bare : ∀ edit ∈ edits, edit.IsBare)
    {place : NodeId → NodeId} {tree copy : Tree} (renames : tree.Renames place copy)
    (rooted : tree.Rooted) (copied : copy.Rooted) : RunsAlike edits place tree copy := by
  induction edits generalizing place tree copy with
  | nil => exact renames
  | cons edit edits ih =>
      have first := bare edit List.mem_cons_self
      have later : ∀ edit ∈ edits, edit.IsBare := by
        intro edit member
        exact bare edit (List.mem_cons_of_mem _ member)
      refine ⟨renames, fun pooled => ?_⟩
      rcases Editing.goesAlike renames rooted copied first pooled with
        ⟨refusal, refused, copiedRefused⟩ | ⟨answer, after, _, _, done, copiedDone, same, renamed⟩
      · exact .inl ⟨refusal, refused, copiedRefused, ih later renames rooted copied⟩
      · refine .inr ⟨answer, after, _, _, done, copiedDone, same, ?_⟩
        apply ih later renamed
        · exact rooted_of_apply rooted first done
        · exact rooted_of_apply copied (first.renamed place) copiedDone

end Edit

end BehaviorTree
