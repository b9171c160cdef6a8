import BehaviorTree.Proofs.Tree.Reachability

/-!
# Accepted and refused edits

`Edit.Accepted` says for every kind of edit when it is accepted, what it answers and which tree it
leaves behind.  In a tree whose states are pooled every edit is either accepted in this sense, or
refused with the tree as it was; later proofs about edits start from these cases and never from the
steps behind them.
-/

namespace BehaviorTree

open BehaviorTree.Number Relation

namespace Tree

/-! ## The trees behind edits -/

/-- The tree without a node and without the edges that lead to it. -/
def withoutNode (tree : Tree) (id : NodeId) : Tree :=
  { tree with pool := (tree.pool.mapNodes fun node => node.detachedFrom id).erase id }

/-- The tree without a state; another state becomes the default in place of one of this name. -/
def withoutState (tree : Tree) (id : NodeId) (name : String) : Tree :=
  let rest := { tree with states := tree.states.erase id, pool := tree.pool.erase id }
  { rest with
    defaultState :=
      if name = tree.defaultState then rest.firstStateName?.getD tree.defaultState
      else tree.defaultState }

/-- The tree with a node renamed, and with the default state following its name. -/
def withName (tree : Tree) (id : NodeId) (node : Node) (name : String) : Tree :=
  { tree.modify id fun node => { node with name } with
    defaultState :=
      if id ∈ tree.states ∧ tree.defaultState = node.name then name else tree.defaultState }

/-- The tree with the bindings of every edge to a node in step with its definitions. -/
def refitted (tree : Tree) (id : NodeId) : Tree :=
  { tree with
    pool := tree.pool.mapEdges fun edge =>
      if edge.child = id then { edge with bindings := tree.fitBindings id edge.bindings } else edge }

/-- The tree with other definitions of a node, and with all bindings of the node in step. -/
def withDefinitions (tree : Tree) (id : NodeId) (definitions : ParameterSet) : Tree :=
  (tree.modify id fun node => node.withParameters definitions).refitted id

/-- The tree with other edges of a node. -/
def withEdges (tree : Tree) (id : NodeId) (change : List Edge → List Edge) : Tree :=
  tree.modify id fun node => { node with edges := change node.edges }

/-! ## Attaching -/

/-- What has to hold of two nodes before one becomes a child of the other. -/
structure Attachable (tree : Tree) (editing : Bool) (parentId : NodeId) (parent : Node)
    (childId : NodeId) (child : Node) (position : Nat) : Prop where
  parent_found : tree.get? parentId = some parent
  child_found : tree.get? childId = some child
  not_leaf : parent.isLeaf = false
  not_state : child.isState = false
  vacant : editing = true → parent.kind.isDecorator = true → parent.edges = []
  in_range : position ≤ parent.edges.length
  not_same : parentId ≠ childId
  not_above : ¬TransGen tree.IsChild childId parentId

theorem wouldCycle_eq_false_iff {tree : Tree} {parent child : NodeId} :
    tree.wouldCycle parent child = false ↔
      parent ≠ child ∧ ¬TransGen tree.IsChild child parent := by
  rw [← reaches_iff]
  simp [wouldCycle]

theorem throw_bind {α β : Type} (refusal : EditError) (next : α → Except EditError β) :
    ((throw refusal : Except EditError α) >>= next) = throw refusal :=
  rfl

theorem throw_ne_ok {α : Type} {refusal : EditError} {answer : α} :
    (throw refusal : Except EditError α) ≠ .ok answer :=
  nofun

theorem attachPosition_eq_ok_iff {tree : Tree} {editing : Bool} {parentId childId : NodeId}
    {index : Option Nat} {position : Nat} :
    tree.attachPosition editing parentId index childId = .ok position ↔
      ∃ parent child, tree.Attachable editing parentId parent childId child position ∧
        position = index.getD parent.edges.length := by
  rcases parentFound : tree.get? parentId with _ | parent
  · simp only [attachPosition, parentFound, throw_ne_ok, false_iff]
    rintro ⟨parent, child, fit, _⟩
    simp [fit.parent_found] at parentFound
  rcases childFound : tree.get? childId with _ | child
  · simp only [attachPosition, parentFound, childFound, throw_ne_ok, false_iff]
    rintro ⟨parent, child, fit, _⟩
    simp [fit.child_found] at childFound
  simp only [attachPosition, parentFound, childFound, throw_bind]
  constructor
  · intro accepted
    split at accepted
    · exact absurd accepted throw_ne_ok
    next notLeaf =>
    split at accepted
    · exact absurd accepted throw_ne_ok
    next notState =>
    split at accepted
    · exact absurd accepted throw_ne_ok
    next vacant =>
    split at accepted
    · exact absurd accepted throw_ne_ok
    next inRange =>
    split at accepted
    · exact absurd accepted throw_ne_ok
    next noCycle =>
    rw [Bool.not_eq_true, wouldCycle_eq_false_iff] at noCycle
    have position_eq : index.getD parent.edges.length = position := Except.ok.inj accepted
    refine ⟨parent, child, {
      parent_found := parentFound
      child_found := childFound
      not_leaf := by simpa using notLeaf
      not_state := by simpa using notState
      vacant := ?_
      in_range := by omega
      not_same := noCycle.1
      not_above := noCycle.2 }, position_eq.symm⟩
    intro editing isDecorator
    simpa [editing, isDecorator] using vacant
  · rintro ⟨parent', child', fit, rfl⟩
    have sameParent : parent = parent' := Option.some.inj (parentFound.symm.trans fit.parent_found)
    have sameChild : child = child' := Option.some.inj (childFound.symm.trans fit.child_found)
    subst sameParent sameChild
    have noCycle := wouldCycle_eq_false_iff.mpr ⟨fit.not_same, fit.not_above⟩
    have vacant :
        (editing && parent.kind.isDecorator && decide (0 < parent.edges.length)) ≠ true := by
      simp only [ne_eq, Bool.and_eq_true, decide_eq_true_eq, not_and, and_imp]
      intro isEditing isDecorator
      simp [fit.vacant isEditing isDecorator]
    rw [if_neg (by simp [fit.not_leaf]), if_neg (by simp [fit.not_state]), if_neg vacant,
      if_neg (by have := fit.in_range; omega), if_neg (by simp [noCycle])]
    rfl

/-- A child is attached exactly where it can be; its bindings are put in step first. -/
theorem attached_eq_ok_iff {tree after : Tree} {editing : Bool} {parentId childId : NodeId}
    {index : Option Nat} {bindings : ParameterSet} :
    tree.attached editing parentId index childId bindings = .ok after ↔
      ∃ parent child position,
        tree.Attachable editing parentId parent childId child position ∧
        position = index.getD parent.edges.length ∧
        after = tree.insertEdge parentId position
          ⟨childId, tree.fitBindings childId bindings⟩ := by
  rcases checked : tree.attachPosition editing parentId index childId with refusal | position
  · simp only [attached, checked]
    constructor
    · exact fun accepted => absurd accepted nofun
    · rintro ⟨parent, child, position, fit, position_eq, _⟩
      rw [attachPosition_eq_ok_iff.mpr ⟨parent, child, fit, position_eq⟩] at checked
      cases checked
  · simp only [attached, checked]
    rcases attachPosition_eq_ok_iff.mp checked with ⟨parent, child, fit, position_eq⟩
    constructor
    · intro accepted
      exact ⟨parent, child, position, fit, position_eq, (Except.ok.inj accepted).symm⟩
    · rintro ⟨parent', child', position', fit', position_eq', rfl⟩
      have same : position' = position := by
        have recomputed := attachPosition_eq_ok_iff.mpr ⟨parent', child', fit', position_eq'⟩
        exact Except.ok.inj (recomputed.symm.trans checked)
      subst same
      rfl

end Tree

/-! ## Accepted edits -/

/-- Which edits a tree accepts, what they answer, and which trees they leave behind. -/
inductive Edit.Accepted (tree : Tree) : Edit → Answer → Tree → Prop where
  | addNode {node : Node} (ordinary : node.isState = false) :
      Accepted tree (.addNode node) (.id tree.nextId) (tree.insert node)
  | deleteNode {id : NodeId} {node : Node} (found : tree.get? id = some node)
      (detached : ¬tree.IsReached id) :
      Accepted tree (.deleteNode id) (.node (node.detachedFrom id)) (tree.withoutNode id)
  | addState {name : String} (identifier : Text.isIdentifier name = true)
      (fresh : tree.hasState name = false) :
      Accepted tree (.addState name) (.id tree.nextId) (tree.insertState name)
  | removeState {id : NodeId} {node : Node} (found : tree.get? id = some node)
      (state : id ∈ tree.states) (others : tree.states.length ≠ 1) :
      Accepted tree (.removeState id) (.node node) (tree.withoutState id node.name)
  | setDefaultState {name : String} (known : tree.hasState name = true) :
      Accepted tree (.setDefaultState name) .done { tree with defaultState := name }
  | setName {name : String} : Accepted tree (.setName name) .done { tree with name }
  | setExpandMethods {expandMethods : Bool} :
      Accepted tree (.setExpandMethods expandMethods) .done { tree with expandMethods }
  | rename {id : NodeId} {node : Node} {name : String} (found : tree.get? id = some node)
      (identifier : Text.isIdentifier name = true)
      (unshared : id ∈ tree.states → ∀ other, tree.state? name = some other → other = id) :
      Accepted tree (.rename id name) .done (tree.withName id node name)
  | setWeight {id : NodeId} {node : Node} {weight : Single} (found : tree.get? id = some node)
      (positive : weight.isAtMostZero = false) (finite : weight.isFinite = true) :
      Accepted tree (.setWeight id weight) .done (tree.modify id fun node => { node with weight })
  | setComposite {id : NodeId} {node : Node} {current composite : Composite}
      (found : tree.get? id = some node) (kind : node.kind = .composite current)
      (same : current.isState = composite.isState) :
      Accepted tree (.setComposite id composite) .done
        (tree.modify id fun node => { node with kind := .composite composite })
  | addChild {parent child : NodeId} {bindings : ParameterSet} {after : Tree}
      (attached : tree.attached true parent none child bindings = .ok after) :
      Accepted tree (.addChild parent child bindings) .done after
  | insertChild {parent child : NodeId} {index : Nat} {bindings : ParameterSet} {after : Tree}
      (attached : tree.attached true parent (some index) child bindings = .ok after) :
      Accepted tree (.insertChild parent index child bindings) .done after
  | removeChild {id child : NodeId} {node : Node} {index : Nat} {edge : Edge}
      (found : tree.get? id = some node) (position : node.indexOf? child = some index)
      (edgeFound : node.edges[index]? = some edge) :
      Accepted tree (.removeChild id child) (.bindings edge.bindings)
        (tree.withEdges id fun edges => edges.eraseIdx index)
  | moveChild {id : NodeId} {node : Node} {origin destination : Nat} {edge : Edge}
      (found : tree.get? id = some node) (edgeFound : node.edges[origin]? = some edge)
      (inRange : destination < node.edges.length) :
      Accepted tree (.moveChild id origin destination) .done
        (tree.withEdges id fun edges => (edges.eraseIdx origin).insertIdx destination edge)
  | replaceChild {id old new : NodeId} {node child : Node} {index : Nat}
      (found : tree.get? id = some node) (position : node.indexOf? old = some index)
      (childFound : tree.get? new = some child) (ordinary : child.isState = false)
      (notSame : id ≠ new) (notAbove : ¬TransGen tree.IsChild new id) :
      Accepted tree (.replaceChild id old new) .done
        (tree.withEdges id fun edges =>
          edges.modify index fun edge => ⟨new, tree.fitBindings new edge.bindings⟩)
  | addParameter {id : NodeId} {node : Node} {parameter : Parameter}
      {definitions extended : ParameterSet} (found : tree.get? id = some node)
      (carried : node.parameters? = some definitions)
      (added : definitions.add parameter = .ok extended) :
      Accepted tree (.addParameter id parameter) .done (tree.withDefinitions id extended)
  | removeParameter {id : NodeId} {node : Node} {name : String} {definitions : ParameterSet}
      {removed : Parameter} (found : tree.get? id = some node)
      (carried : node.parameters? = some definitions)
      (defined : definitions.find name = some removed) :
      Accepted tree (.removeParameter id name) (.parameter removed)
        (tree.withDefinitions id (definitions.without name))
  | setParameterDefault {id : NodeId} {node : Node} {name value : String}
      {definitions : ParameterSet} (found : tree.get? id = some node)
      (carried : node.parameters? = some definitions)
      (defined : definitions.defines name = true) :
      Accepted tree (.setParameterDefault id name value) .done
        (tree.modify id fun node => node.withParameters (definitions.assign name value))
  | setBinding {id : NodeId} {node : Node} {index : Nat} {edge : Edge} {name value : String}
      (found : tree.get? id = some node) (edgeFound : node.edges[index]? = some edge)
      (bound : edge.bindings.defines name = true) :
      Accepted tree (.setBinding id index name value) .done
        (tree.withEdges id fun edges =>
          edges.modify index fun edge =>
            { edge with bindings := edge.bindings.assign name value })
  | matchParameters : Accepted tree .matchParameters .done tree.matchParameters
  | setProperties {id : NodeId} {properties : List Property} :
      Accepted tree (.setProperties id properties) (.found (tree.contains id))
        (tree.modify id fun node => properties.foldl Node.withProperty node)

/-! ## Running edits -/

namespace Editing

variable {α β : Type} {tree : Tree} {accepted : α → Tree → Prop}

/-- A step either refuses and leaves the tree as it is, or answers and leaves an accepted tree
behind. -/
def Settles (step : Editing α) (tree : Tree) (accepted : α → Tree → Prop) : Prop :=
  (∃ refusal, step.run tree = (.error refusal, tree)) ∨
    ∃ answer after, step.run tree = (.ok answer, after) ∧ accepted answer after

/-! ### Runs -/

theorem run_pure (answer : α) (tree : Tree) :
    (pure answer : Editing α).run tree = (.ok answer, tree) :=
  rfl

theorem run_throw (refusal : EditError) (tree : Tree) :
    (throw refusal : Editing α).run tree = (.error refusal, tree) :=
  rfl

theorem run_get (tree : Tree) : (get : Editing Tree).run tree = (.ok tree, tree) :=
  rfl

theorem run_modify (change : Tree → Tree) (tree : Tree) :
    (modify change : Editing Unit).run tree = (.ok (), change tree) :=
  rfl

theorem run_ite (condition : Prop) [Decidable condition] (yes no : Editing α) (tree : Tree) :
    (if condition then yes else no).run tree =
      if condition then yes.run tree else no.run tree := by
  split <;> rfl

theorem run_bind (step : Editing α) (next : α → Editing β) (tree : Tree) :
    (step >>= next).run tree =
      match step.run tree with
      | (.ok answer, after) => (next answer).run after
      | (.error refusal, after) => (.error refusal, after) := by
  change ExceptT.bindCont next (step.run tree).1 (step.run tree).2 = _
  rcases step.run tree with ⟨_ | _, after⟩ <;> rfl

theorem run_require (id : NodeId) (tree : Tree) :
    (require id).run tree =
      match tree.get? id with
      | some node => (.ok node, tree)
      | none => (.error (.unknownNode id), tree) := by
  simp only [require, run_bind, run_get]
  cases tree.get? id <;> rfl

theorem run_change (id : NodeId) (change : Node → Node) (tree : Tree) :
    (Editing.change id change).run tree = (.ok (), tree.modify id change) :=
  rfl

/-! ### Rules -/

theorem settles_of_ok {step : Editing α} {after : Tree} {answer : α}
    (done : step.run tree = (.ok answer, after)) (holds : accepted answer after) :
    Settles step tree accepted :=
  .inr ⟨answer, after, done, holds⟩

theorem settles_throw {refusal : EditError} : Settles (throw refusal) tree accepted :=
  .inl ⟨refusal, rfl⟩

theorem settles_throw_bind {refusal : EditError} {next : β → Editing α} :
    Settles (throw refusal >>= next) tree accepted :=
  .inl ⟨refusal, rfl⟩

theorem settles_ite {condition : Prop} [Decidable condition] {yes no : Editing α}
    (whenTrue : condition → Settles yes tree accepted)
    (whenFalse : ¬condition → Settles no tree accepted) :
    Settles (if condition then yes else no) tree accepted := by
  split
  · next holds => exact whenTrue holds
  · next fails => exact whenFalse fails

theorem settles_get_bind {next : Tree → Editing α} (rest : Settles (next tree) tree accepted) :
    Settles (get >>= next) tree accepted := by
  simpa only [Settles, run_bind, run_get] using rest

theorem settles_require_bind {id : NodeId} {next : Node → Editing α}
    (rest : ∀ node, tree.get? id = some node → Settles (next node) tree accepted) :
    Settles (require id >>= next) tree accepted := by
  simp only [Settles, run_bind, run_require]
  rcases found : tree.get? id with _ | node
  · exact .inl ⟨_, rfl⟩
  · exact rest node found

/-- The answer of a step may be put into another form. -/
theorem settles_bind_pure {step : Editing β} {form : β → α}
    (rest : Settles step tree fun answer after => accepted (form answer) after) :
    Settles (step >>= fun answer => pure (form answer)) tree accepted := by
  simp only [Settles, run_bind, run_pure]
  rcases rest with ⟨refusal, refused⟩ | ⟨answer, after, done, holds⟩
  · exact .inl ⟨refusal, by rw [refused]⟩
  · exact .inr ⟨form answer, after, by rw [done], holds⟩

/-! ### Edits -/

theorem settles_addNode (node : Node) :
    Settles (Edit.addNode node).step tree (Edit.Accepted tree (.addNode node)) := by
  refine settles_bind_pure (settles_ite (fun _ => settles_throw_bind) fun ordinary => ?_)
  exact settles_of_ok rfl (.addNode (by simpa using ordinary))

/-- A node is deleted in two steps; the second one finds what the first one left. -/
theorem run_deleteNode (id : NodeId) (tree : Tree) :
    (Edit.deleteNode id).step.run tree =
      match tree.get? id with
      | none => (.error (.unknownNode id), tree)
      | some node =>
          if tree.isInHierarchy id then (.error (.inHierarchy node.name), tree)
          else (.ok (.node (node.detachedFrom id)), tree.withoutNode id) := by
  rcases found : tree.get? id with _ | node
  · simp [Edit.step, deleteNode, run_bind, run_require, found]
  · have emptied :
        Tree.get? { tree with pool := tree.pool.mapNodes fun other => other.detachedFrom id } id =
          some (node.detachedFrom id) := by
      simp only [Tree.get?, Pool.get?_mapNodes] at found ⊢
      rw [found, Option.map_some]
    simp only [Edit.step, deleteNode, run_bind, run_require, run_get, run_ite, found]
    by_cases reached : tree.isInHierarchy id
    · simp [reached, run_throw]
    · simp [reached, run_bind, run_modify, run_require, take, run_pure, emptied]
      rfl

theorem settles_deleteNode (id : NodeId) :
    Settles (Edit.deleteNode id).step tree (Edit.Accepted tree (.deleteNode id)) := by
  rw [Settles, run_deleteNode]
  split
  · exact .inl ⟨_, rfl⟩
  · next node found =>
      split
      · exact .inl ⟨_, rfl⟩
      · next unreached =>
          rw [Tree.isInHierarchy_iff] at unreached
          exact .inr ⟨_, _, rfl, .deleteNode found unreached⟩

theorem settles_addState (name : String) :
    Settles (Edit.addState name).step tree (Edit.Accepted tree (.addState name)) := by
  refine settles_bind_pure (settles_ite (fun _ => settles_throw_bind) fun identifier => ?_)
  refine settles_get_bind (settles_ite (fun _ => settles_throw_bind) fun fresh => ?_)
  exact settles_of_ok rfl (.addState (by simpa using identifier) (by simpa using fresh))

/-- A state leaves the list of states before its node is looked for. -/
theorem run_removeState (id : NodeId) (tree : Tree) :
    (Edit.removeState id).step.run tree =
      if id ∉ tree.states then (.error (.notAState id), tree)
      else if tree.states.length = 1 then (.error .lastState, tree)
      else
        match tree.get? id with
        | none => (.error (.unknownNode id), { tree with states := tree.states.erase id })
        | some node => (.ok (.node node), tree.withoutState id node.name) := by
  have still : Tree.get? { tree with states := tree.states.erase id } id = tree.get? id := rfl
  by_cases state : id ∈ tree.states
  · by_cases last : tree.states.length = 1
    · simp [Edit.step, removeState, run_bind, run_get, run_throw, state, last]
    · rcases found : tree.get? id with _ | node
      · simp [Edit.step, removeState, run_bind, run_get, state, last, take, run_modify, run_require,
          still, found]
      · simp only [Edit.step, removeState, run_bind, run_get, run_throw, run_ite, state, last, take,
          run_modify, run_require, still, found]
        by_cases isDefault : node.name = tree.defaultState
        · simp [run_pure, isDefault, Tree.withoutState]
        · simp [run_pure, isDefault, Tree.withoutState]
  · simp [Edit.step, removeState, run_bind, run_get, run_throw, state]

theorem settles_removeState {id : NodeId}
    (pooled : id ∈ tree.states → ∃ node, tree.get? id = some node) :
    Settles (Edit.removeState id).step tree (Edit.Accepted tree (.removeState id)) := by
  rw [Settles, run_removeState]
  split
  · exact .inl ⟨_, rfl⟩
  next state =>
  rw [not_not] at state
  rcases pooled state with ⟨node, found⟩
  rw [found]
  split
  · exact .inl ⟨_, rfl⟩
  · next others => exact .inr ⟨_, _, rfl, .removeState found state others⟩

theorem settles_setDefaultState (name : String) :
    Settles (Edit.setDefaultState name).step tree (Edit.Accepted tree (.setDefaultState name)) := by
  refine settles_bind_pure (settles_get_bind ?_)
  refine settles_ite (fun known => ?_) fun _ => settles_throw
  exact settles_of_ok rfl (.setDefaultState known)

/-- A node is renamed in two steps, of which the second one is for the default state. -/
theorem run_renaming (id : NodeId) (node : Node) (name : String) (tree : Tree) :
    (do
      change id fun node => { node with name }
      if id ∈ tree.states ∧ tree.defaultState = node.name then
        modify fun tree => { tree with defaultState := name } : Editing Unit).run tree =
      (.ok (), tree.withName id node name) := by
  simp only [run_bind, run_change, run_ite, run_modify, run_pure, Tree.withName]
  by_cases follows : id ∈ tree.states ∧ tree.defaultState = node.name
  · simp only [follows, and_self, ↓reduceIte]
  · simp only [follows, ↓reduceIte]
    rfl

theorem settles_rename (id : NodeId) (name : String) :
    Settles (Edit.rename id name).step tree (Edit.Accepted tree (.rename id name)) := by
  refine settles_bind_pure (settles_ite (fun _ => settles_throw_bind) fun identifier => ?_)
  refine settles_get_bind (settles_ite (fun _ => settles_throw_bind) fun unshared => ?_)
  refine settles_require_bind fun node found => ?_
  have alone : id ∈ tree.states → ∀ other, tree.state? name = some other → other = id := by
    intro isState other named
    simpa [isState, named] using unshared
  exact settles_of_ok (run_renaming ..) (.rename found (by simpa using identifier) alone)

theorem settles_setWeight (id : NodeId) (weight : Single) :
    Settles (Edit.setWeight id weight).step tree (Edit.Accepted tree (.setWeight id weight)) := by
  refine settles_bind_pure (settles_ite (fun _ => settles_throw_bind) fun valid => ?_)
  refine settles_require_bind fun node found => ?_
  simp only [Bool.or_eq_true, not_or, Bool.not_eq_true, Bool.not_eq_false'] at valid
  exact settles_of_ok rfl (.setWeight found valid.1 valid.2)

theorem settles_setComposite (id : NodeId) (composite : Composite) :
    Settles (Edit.setComposite id composite).step tree
      (Edit.Accepted tree (.setComposite id composite)) := by
  refine settles_bind_pure (settles_require_bind fun node found => ?_)
  split
  · next current kind =>
      refine settles_ite (fun _ => settles_throw_bind) fun same => ?_
      exact settles_of_ok rfl (.setComposite found kind (by simpa using same))
  · exact settles_throw

theorem settles_attach {parent child : NodeId} {index : Option Nat} {bindings : ParameterSet}
    {accepted : Unit → Tree → Prop}
    (holds : ∀ after, tree.attached true parent index child bindings = .ok after →
      accepted () after) :
    Settles (attach parent index child bindings) tree accepted := by
  apply settles_get_bind
  split
  · next after attached => exact settles_of_ok rfl (holds after attached)
  · exact settles_throw

theorem settles_removeChild (id child : NodeId) :
    Settles (Edit.removeChild id child).step tree (Edit.Accepted tree (.removeChild id child)) := by
  refine settles_bind_pure (settles_require_bind fun node found => ?_)
  split
  · next index position =>
      split
      · next edge edgeFound => exact settles_of_ok rfl (.removeChild found position edgeFound)
      · exact settles_throw
  · exact settles_throw

theorem settles_moveChild (id : NodeId) (origin destination : Nat) :
    Settles (Edit.moveChild id origin destination).step tree
      (Edit.Accepted tree (.moveChild id origin destination)) := by
  refine settles_bind_pure (settles_require_bind fun node found => ?_)
  refine settles_ite (fun _ => settles_throw_bind) fun _ => ?_
  refine settles_ite (fun _ => settles_throw_bind) fun inRange => ?_
  split
  · next edge edgeFound =>
      exact settles_of_ok rfl (.moveChild found edgeFound (by omega))
  · exact settles_throw

theorem settles_replaceChild (id old new : NodeId) :
    Settles (Edit.replaceChild id old new).step tree
      (Edit.Accepted tree (.replaceChild id old new)) := by
  refine settles_bind_pure (settles_require_bind fun node found => ?_)
  split
  · next index position =>
      refine settles_require_bind fun child childFound => ?_
      refine settles_ite (fun _ => settles_throw_bind) fun ordinary => ?_
      refine settles_get_bind (settles_ite (fun _ => settles_throw_bind) fun noCycle => ?_)
      rw [Bool.not_eq_true, Tree.wouldCycle_eq_false_iff] at noCycle
      exact settles_of_ok rfl
        (.replaceChild found position childFound (by simpa using ordinary) noCycle.1 noCycle.2)
  · exact settles_throw

theorem settles_definitions_bind {id : NodeId} {next : ParameterSet → Editing α}
    (rest : ∀ node definitions, tree.get? id = some node → node.parameters? = some definitions →
      Settles (next definitions) tree accepted) :
    Settles (definitions id >>= next) tree accepted := by
  simp only [Settles, definitions, run_bind, run_require]
  rcases found : tree.get? id with _ | node
  · exact .inl ⟨_, rfl⟩
  · rcases carried : node.parameters? with _ | definitions
    · exact .inl ⟨.noParameters node.name, by simp only [carried, run_throw]⟩
    · simpa only [carried, run_pure, Settles] using rest node definitions found carried

theorem settles_addParameter (id : NodeId) (parameter : Parameter) :
    Settles (Edit.addParameter id parameter).step tree
      (Edit.Accepted tree (.addParameter id parameter)) := by
  refine settles_bind_pure (settles_definitions_bind fun node definitions found carried => ?_)
  split
  · next extended added => exact settles_of_ok rfl (.addParameter found carried added)
  · exact settles_throw

theorem settles_removeParameter (id : NodeId) (name : String) :
    Settles (Edit.removeParameter id name).step tree
      (Edit.Accepted tree (.removeParameter id name)) := by
  refine settles_bind_pure (settles_definitions_bind fun node definitions found carried => ?_)
  split
  · next removed defined => exact settles_of_ok rfl (.removeParameter found carried defined)
  · exact settles_throw

theorem settles_setParameterDefault (id : NodeId) (name value : String) :
    Settles (Edit.setParameterDefault id name value).step tree
      (Edit.Accepted tree (.setParameterDefault id name value)) := by
  refine settles_bind_pure (settles_definitions_bind fun node definitions found carried => ?_)
  refine settles_ite (fun defined => ?_) fun _ => settles_throw
  exact settles_of_ok rfl (.setParameterDefault found carried defined)

theorem settles_setBinding (id : NodeId) (index : Nat) (name value : String) :
    Settles (Edit.setBinding id index name value).step tree
      (Edit.Accepted tree (.setBinding id index name value)) := by
  refine settles_bind_pure (settles_require_bind fun node found => ?_)
  split
  · next edge edgeFound =>
      refine settles_ite (fun bound => ?_) fun _ => settles_throw
      exact settles_of_ok rfl (.setBinding found edgeFound bound)
  · exact settles_throw

/-- An edit is accepted or changes nothing, unless it removes a state that is not pooled. -/
theorem settles_step {edit : Edit} (pooled : ∀ id, edit = .removeState id → id ∈ tree.states →
    ∃ node, tree.get? id = some node) : Settles edit.step tree (edit.Accepted tree) := by
  cases edit with
  | addNode node => exact settles_addNode node
  | deleteNode id => exact settles_deleteNode id
  | addState name => exact settles_addState name
  | removeState id => exact settles_removeState (pooled id rfl)
  | setDefaultState name => exact settles_setDefaultState name
  | setName name => exact settles_of_ok rfl .setName
  | setExpandMethods expandMethods => exact settles_of_ok rfl .setExpandMethods
  | rename id name => exact settles_rename id name
  | setWeight id weight => exact settles_setWeight id weight
  | setComposite id composite => exact settles_setComposite id composite
  | addChild parent child bindings =>
      exact settles_bind_pure (settles_attach fun _ attached => .addChild attached)
  | insertChild parent index child bindings =>
      exact settles_bind_pure (settles_attach fun _ attached => .insertChild attached)
  | removeChild parent child => exact settles_removeChild parent child
  | moveChild parent origin destination => exact settles_moveChild parent origin destination
  | replaceChild parent old new => exact settles_replaceChild parent old new
  | addParameter id parameter => exact settles_addParameter id parameter
  | removeParameter id name => exact settles_removeParameter id name
  | setParameterDefault id name value => exact settles_setParameterDefault id name value
  | setBinding parent index name value => exact settles_setBinding parent index name value
  | matchParameters => exact settles_of_ok rfl .matchParameters
  | setProperties id properties => exact settles_of_ok rfl .setProperties

end Editing

/-- Either an edit is refused and the tree stays as it is, or it is accepted, or it removes a state
that is not pooled: then it is refused after the state has left the list. -/
theorem Edit.apply_cases_of_any (tree : Tree) (edit : Edit) :
    (∃ refusal, edit.apply tree = (.error refusal, tree)) ∨
      (∃ answer after, edit.apply tree = (.ok answer, after) ∧ edit.Accepted tree answer after) ∨
      ∃ id, edit = .removeState id ∧ id ∈ tree.states ∧ tree.get? id = none ∧
        edit.apply tree =
          (.error (.unknownNode id), { tree with states := tree.states.erase id }) := by
  by_cases lost : ∃ id, edit = .removeState id ∧ id ∈ tree.states ∧ tree.get? id = none
  · rcases lost with ⟨id, rfl, state, missing⟩
    have run := Editing.run_removeState id tree
    rw [if_neg (not_not.mpr state), missing] at run
    by_cases last : tree.states.length = 1
    · exact .inl ⟨.lastState, run.trans (if_pos last)⟩
    · exact .inr (.inr ⟨id, rfl, state, missing, run.trans (if_neg last)⟩)
  · have pooled : ∀ id, edit = .removeState id → id ∈ tree.states →
        ∃ node, tree.get? id = some node := by
      intro id same state
      by_contra unpooled
      refine lost ⟨id, same, state, Option.eq_none_iff_forall_ne_some.mpr ?_⟩
      exact fun node found => unpooled ⟨node, found⟩
    rcases Editing.settles_step pooled with refused | accepted
    · exact .inl refused
    · exact .inr (.inl accepted)

/-- In a tree whose states are pooled, an edit is refused and the tree stays as it is, or it is
accepted. -/
theorem Edit.apply_cases {tree : Tree}
    (pooled : ∀ id ∈ tree.states, ∃ node, tree.get? id = some node) (edit : Edit) :
    (∃ refusal, edit.apply tree = (.error refusal, tree)) ∨
      ∃ answer after, edit.apply tree = (.ok answer, after) ∧ edit.Accepted tree answer after :=
  Editing.settles_step fun id _ member => pooled id member

/-! ## Accepted edits are carried out -/

namespace Editing

variable {α β : Type} {tree after : Tree}

theorem run_bind_pure {step : Editing β} {form : β → α} {answer : β}
    (done : step.run tree = (.ok answer, after)) :
    (step >>= fun answer => pure (form answer)).run tree = (.ok (form answer), after) := by
  rw [run_bind, done]
  rfl

theorem run_then_pure {step : Editing Unit} {answer : α} (done : step.run tree = (.ok (), after)) :
    (step >>= fun _ => pure answer).run tree = (.ok answer, after) :=
  run_bind_pure done

theorem run_definitions {id : NodeId} {node : Node} {parameters : ParameterSet}
    (found : tree.get? id = some node) (carried : node.parameters? = some parameters) :
    (definitions id).run tree = (.ok parameters, tree) := by
  simp [definitions, run_bind, run_require, run_pure, found, carried]

theorem run_attach (parent : NodeId) (index : Option Nat) (child : NodeId)
    (bindings : ParameterSet) (tree : Tree) :
    (attach parent index child bindings).run tree =
      match tree.attached true parent index child bindings with
      | .ok after => (.ok (), after)
      | .error refusal => (.error refusal, tree) := by
  rw [attach, run_bind, run_get]
  dsimp only
  cases tree.attached true parent index child bindings <;> rfl

theorem run_of_accepted {edit : Edit} {answer : Answer}
    (accepted : edit.Accepted tree answer after) : edit.step.run tree = (.ok answer, after) := by
  cases accepted with
  | addNode ordinary =>
      apply run_bind_pure
      simp only [addNode, ordinary, Bool.false_eq_true, ↓reduceIte]
      rfl
  | deleteNode found detached =>
      rw [← Tree.isInHierarchy_iff] at detached
      rw [run_deleteNode, found]
      exact if_neg detached
  | addState identifier fresh =>
      apply run_bind_pure
      simp only [addState, identifier, Bool.not_true, Bool.false_eq_true, ↓reduceIte]
      simp only [run_bind, run_get, fresh, Bool.false_eq_true, ↓reduceIte]
      rfl
  | removeState found state others =>
      rw [run_removeState, if_neg (not_not.mpr state), if_neg others, found]
  | setDefaultState known =>
      apply run_then_pure
      simp only [setDefaultState, run_bind, run_get, known, ↓reduceIte]
      rfl
  | setName => rfl
  | setExpandMethods => rfl
  | @rename id node name found identifier unshared =>
      have alone : ¬(id ∈ tree.states ∧ (tree.state? name).any (· ≠ id) = true) := by
        rintro ⟨isState, shared⟩
        rcases (Option.any_eq_true _ _).mp shared with ⟨other, named, different⟩
        exact of_decide_eq_true different (unshared isState other named)
      apply run_bind_pure
      simp only [rename, identifier, Bool.not_true, Bool.false_eq_true, ↓reduceIte]
      simp only [run_bind, run_get, alone, ↓reduceIte, run_require, found]
      exact run_renaming id node name tree
  | setWeight found positive finite =>
      apply run_then_pure
      simp only [setWeight, positive, finite, Bool.not_true, Bool.or_self, Bool.false_eq_true,
        ↓reduceIte]
      simp only [run_bind, run_require, found]
      rfl
  | setComposite found kind same =>
      apply run_then_pure
      simp only [setComposite, run_bind, run_require, found, kind, same, bne_self_eq_false,
        Bool.false_eq_true, ↓reduceIte]
      rfl
  | addChild attached => exact run_then_pure (by rw [run_attach, attached])
  | insertChild attached => exact run_then_pure (by rw [run_attach, attached])
  | removeChild found position edgeFound =>
      apply run_bind_pure
      simp only [removeChild, run_bind, run_require, found, position, edgeFound]
      rfl
  | moveChild found edgeFound inRange =>
      have inside := (List.getElem?_eq_some_iff.mp edgeFound).1
      apply run_then_pure
      simp only [moveChild, run_bind, run_require, found, Nat.not_le.mpr inside,
        Nat.not_le.mpr inRange, ↓reduceIte, edgeFound]
      rfl
  | replaceChild found position childFound ordinary notSame notAbove =>
      have noCycle := Tree.wouldCycle_eq_false_iff.mpr ⟨notSame, notAbove⟩
      apply run_then_pure
      simp only [replaceChild, run_bind, run_require, found, position, childFound, ordinary,
        Bool.false_eq_true, ↓reduceIte, run_get, noCycle]
      rfl
  | addParameter found carried added =>
      apply run_then_pure
      simp only [addParameter, run_bind, run_definitions found carried, added]
      rfl
  | removeParameter found carried defined =>
      apply run_bind_pure
      simp only [removeParameter, run_bind, run_definitions found carried, defined]
      rfl
  | setParameterDefault found carried defined =>
      apply run_then_pure
      simp only [setParameterDefault, run_bind, run_definitions found carried, defined, ↓reduceIte]
      rfl
  | setBinding found edgeFound bound =>
      apply run_then_pure
      simp only [setBinding, run_bind, run_require, found, edgeFound, bound, ↓reduceIte]
      rfl
  | matchParameters => rfl
  | setProperties => rfl

end Editing

/-- An edit is accepted exactly in these cases. -/
theorem Edit.apply_eq_ok_iff {tree after : Tree} {edit : Edit} {answer : Answer} :
    edit.apply tree = (.ok answer, after) ↔ edit.Accepted tree answer after := by
  constructor
  · intro done
    rcases edit.apply_cases_of_any tree
      with ⟨_, refused⟩ | ⟨_, _, accepted, holds⟩ | ⟨_, _, _, _, refused⟩
    · cases refused.symm.trans done
    · cases accepted.symm.trans done
      exact holds
    · cases refused.symm.trans done
  · exact Editing.run_of_accepted

end BehaviorTree
