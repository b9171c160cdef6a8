import BehaviorTree.Document.TreeText
import BehaviorTree.Proofs.Tree.Fitting

/-!
# Trees of documents

Whatever a document holds, its tree is rooted and its bindings are in step.  The assembly keeps this
up record by record and entry by entry; the two ways to a state that the document does not name keep
it as well.
-/

namespace BehaviorTree.Document

open BehaviorTree.Json Relation

/-! ## Nodes of records -/

theorem nodeOf_run (record : BehaviorRecord) :
    (nodeOf record).run =
      match (kindOf record).run with
      | ⟨.error reason, warnings⟩ => ⟨.error reason, warnings⟩
      | ⟨.ok kind, warnings⟩ =>
          let parameters := parametersOf record.name (record.parameters.getD [])
          let concurrency :=
            (wordOrDefault record.name "Concurrency" record.concurrency : Noted ConcurrencyMode)
          ⟨.ok
            { name := record.name
              weight := record.weight
              concurrency := concurrency.result
              comment := record.comment
              kind := kind.withParameters parameters.result },
            warnings ++ (parameters.warnings ++ concurrency.warnings)⟩ := by
  change ((kindOf record).run >>= _) = _
  rcases (kindOf record).run with ⟨reason | kind, warnings⟩
  · change (⟨.error reason, warnings ++ []⟩ : Noted (Except String Node)) = _
    rw [List.append_nil]
  · change (⟨.ok _, warnings ++ ((_ ++ []) ++ ((_ ++ []) ++ []))⟩ : Noted (Except String Node)) = _
    simp only [List.append_nil]
    rfl

/-- The node of a record has no children yet. -/
theorem edges_nodeOf {record : BehaviorRecord} {node : Node}
    (built : (nodeOf record).run.result = .ok node) : node.edges = [] := by
  rw [nodeOf_run] at built
  split at built
  · cases built
  · rw [Except.ok.injEq] at built
    rw [← built]

/-! ## Calls on a builder -/

theorem attached_of_attach {builder after : Builder} {parent child : NodeId}
    {bindings : ParameterSet} (accepted : builder.attach parent child bindings = .ok after) :
    builder.tree.attached false parent none child bindings = .ok after.tree := by
  simp only [Builder.attach] at accepted
  cases step : builder.tree.attached false parent none child bindings with
  | error refusal => simp [step, bind, Except.bind] at accepted
  | ok tree =>
      simp only [step, bind, Except.bind, pure, Except.pure, Except.ok.injEq] at accepted
      rw [← accepted]

/-- The tree of a builder with the given states, of which only nodes that are states count. -/
def listed (builder : Builder) (ids : List NodeId) : Tree :=
  { builder.tree with states := ids.filter fun id => (builder.get? id).any Node.isState }

/-- Finishing adds a state if there is none, and changes nothing else that matters to the graph. -/
theorem restyles_finish (builder : Builder) (ids : List NodeId) :
    (listed builder ids).states = [] ∧
        ((listed builder ids).insertState defaultStateName).Restyles (builder.finish ids) ∨
      (listed builder ids).states ≠ [] ∧ (listed builder ids).Restyles (builder.finish ids) := by
  rw [Builder.finish]
  dsimp only
  split
  · next none =>
      refine .inl ⟨List.isEmpty_iff.mp none, ?_⟩
      exact (Tree.restyles_header _ _ _ _).trans (Tree.restyles_matchParameters _)
  · next some =>
      refine .inr ⟨?_, Tree.restyles_matchParameters _⟩
      simpa [listed] using some

theorem fitted_finish (builder : Builder) (ids : List NodeId) : (builder.finish ids).Fitted := by
  rw [Builder.finish]
  dsimp only
  split <;> exact Tree.Fitted.matchParameters _

/-! ## Sound assemblies -/

/-- The tree of an assembly is a graph like that of any tree, and the assembly knows its states. -/
structure Assembly.Sound (assembly : Assembly) : Prop where
  coherent : assembly.builder.tree.Coherent
  fitted : assembly.builder.tree.Fitted
  states_distinct : assembly.states.Nodup
  mem_states : ∀ id, id ∈ assembly.states ↔
    ∃ node, assembly.builder.tree.get? id = some node ∧ node.isState = true

namespace Assembly.Sound

variable {assembly : Assembly}

theorem of_builder {other : Assembly} (sound : assembly.Sound)
    (builder : other.builder = assembly.builder) (states : other.states = assembly.states) :
    other.Sound where
  coherent := builder ▸ sound.coherent
  fitted := builder ▸ sound.fitted
  states_distinct := states ▸ sound.states_distinct
  mem_states := by
    rw [builder, states]
    exact sound.mem_states

theorem warn (sound : assembly.Sound) (warning : LoadWarning) : (assembly.warn warning).Sound :=
  sound.of_builder rfl rfl

theorem foldl {α : Type} {step : Assembly → α → Assembly} (sound : assembly.Sound)
    (kept : ∀ assembly, assembly.Sound → ∀ element, (step assembly element).Sound)
    (elements : List α) : (elements.foldl step assembly).Sound := by
  induction elements generalizing assembly with
  | nil => exact sound
  | cons element elements ih => exact ih (kept assembly sound element)

theorem addNode {node : Node} (sound : assembly.Sound) (recordId : Int) (bare : node.edges = []) :
    (assembly.addNode recordId node).Sound where
  coherent := sound.coherent.insert bare
  fitted := sound.fitted.insert sound.coherent bare
  states_distinct := by
    simp only [Assembly.addNode]
    split
    · apply List.Nodup.append sound.states_distinct (List.nodup_singleton _)
      intro id member next
      rw [List.mem_singleton] at next
      rcases (sound.mem_states id).mp member with ⟨_, found, _⟩
      simp [next, sound.coherent.get?_nextId] at found
    · exact sound.states_distinct
  mem_states := by
    intro id
    simp only [Assembly.addNode, Builder.addNode, Tree.get?_insert_iff sound.coherent]
    split
    · next isState =>
        rw [List.mem_append, List.mem_singleton, sound.mem_states]
        constructor
        · rintro (⟨other, found, otherState⟩ | rfl)
          · exact ⟨other, .inl found, otherState⟩
          · exact ⟨node, .inr ⟨rfl, rfl⟩, isState⟩
        · rintro ⟨other, found | ⟨rfl, rfl⟩, otherState⟩
          · exact .inl ⟨other, found, otherState⟩
          · exact .inr rfl
    · next ordinary =>
        rw [sound.mem_states]
        refine exists_congr fun other => ?_
        constructor
        · exact fun old => ⟨.inl old.1, old.2⟩
        · rintro ⟨found | ⟨rfl, rfl⟩, otherState⟩
          · exact ⟨found, otherState⟩
          · exact absurd otherState ordinary

theorem addBehavior (sound : assembly.Sound) (element : Value × Nat) :
    (assembly.addBehavior element).Sound := by
  rw [Assembly.addBehavior]
  split
  · exact sound.warn _
  · next record decoded =>
      have noted : Assembly.Sound
          { assembly with warnings := assembly.warnings ++ (nodeOf record).run.warnings } :=
        sound.of_builder rfl rfl
      dsimp only
      split
      · exact noted.warn _
      · next node built => exact noted.addNode record.id (edges_nodeOf built)

/-- An attachment that is accepted leaves the assembly sound. -/
theorem attach {parent child : NodeId} {bindings : ParameterSet} {builder : Builder}
    (sound : assembly.Sound) (attached : assembly.builder.attach parent child bindings = .ok builder) :
    Assembly.Sound { assembly with builder } := by
  rcases Tree.attached_eq_ok_iff.mp (attached_of_attach attached)
    with ⟨_, _, position, attachable, _, after⟩
  have inPlace : assembly.builder.tree.InPlace builder.tree := by
    rw [after]
    exact Tree.inPlace_withEdges _ _ _
  exact {
    coherent := after ▸ attachable.coherent sound.coherent
    fitted := after ▸ sound.fitted.insertEdge
    states_distinct := sound.states_distinct
    mem_states := fun id => (sound.mem_states id).trans (inPlace.exists_state_iff id).symm }

theorem addChild (sound : assembly.Sound) (entryId : Int) (parent : NodeId)
    (record : ChildRecord) : (assembly.addChild entryId parent record).Sound := by
  rw [Assembly.addChild]
  split
  · exact sound.warn _
  · next child named =>
      dsimp only
      split
      · refine Assembly.Sound.warn ?_ _
        exact sound.of_builder rfl rfl
      · next builder attached => exact (sound.attach attached).of_builder rfl rfl

theorem addEntry (sound : assembly.Sound) (entry : HierarchyEntry) :
    (assembly.addEntry entry).Sound := by
  rw [Assembly.addEntry]
  split
  · exact sound.warn _
  · next parent named =>
      exact sound.foldl (fun _ sound record => sound.addChild entry.id parent record) entry.children

theorem addHierarchy (sound : assembly.Sound) (element : Value × Nat) :
    (assembly.addHierarchy element).Sound := by
  rw [Assembly.addHierarchy]
  split
  · exact sound.warn _
  · exact sound.addEntry _

theorem start (draft : TreeDraft) : draft.start.Sound where
  coherent := Tree.coherent_of_pool_eq_nil rfl
  fitted := nofun
  states_distinct := .nil
  mem_states := fun _ => ⟨nofun, fun ⟨_, found, _⟩ => absurd found nofun⟩

theorem assembled (draft : TreeDraft) : draft.assembled.Sound :=
  ((start draft).foldl (fun _ sound element => sound.addBehavior element) _).foldl
    (fun _ sound element => sound.addHierarchy element) _

/-! ## Finishing -/

end Assembly.Sound

/-- The tree with a node as a state, and without the edges that led to it. -/
def promoted (tree : Tree) (root : NodeId) (order : PriorityType) : Tree :=
  let tree := tree.modify root fun node => { node with kind := .composite (.state order) }
  { tree with pool := tree.pool.mapNodes fun node => node.detachedFrom root }

variable {tree : Tree} {root : NodeId} {order : PriorityType}

theorem promoteToState?_eq_some {builder after : Builder}
    (done : builder.promoteToState? root = some after) :
    ∃ node order, builder.tree.get? root = some node ∧ node.kind = .composite (.priority order) ∧
      after = ⟨promoted builder.tree root order⟩ := by
  rw [Builder.promoteToState?] at done
  split at done
  · next order kind =>
      rcases Option.map_eq_some_iff.mp kind with ⟨node, found, same⟩
      exact ⟨node, order, found, same, (Option.some.inj done).symm⟩
  · cases done

theorem get?_promoted (tree : Tree) (root : NodeId) (order : PriorityType) (other : NodeId) :
    (promoted tree root order).get? other =
      (tree.get? other).map fun node =>
        { node with
          edges := node.edges.filter (·.child ≠ root)
          kind := if other = root then .composite (.state order) else node.kind } := by
  simp only [promoted, Tree.get?, Tree.modify, Pool.get?_mapNodes, Pool.get?_modify,
    Option.map_map]
  congr 1
  funext node
  simp only [Function.comp_apply, Node.detachedFrom]
  split <;> rfl

theorem get?_promoted_eq_some {other : NodeId} {newNode : Node}
    (found : (promoted tree root order).get? other = some newNode) :
    ∃ node, tree.get? other = some node ∧
      newNode.edges = node.edges.filter (·.child ≠ root) ∧
      newNode.kind = if other = root then .composite (.state order) else node.kind := by
  rw [get?_promoted] at found
  rcases Option.map_eq_some_iff.mp found with ⟨node, oldFound, rfl⟩
  exact ⟨node, oldFound, rfl, rfl⟩

theorem get?_promoted_of_some {other : NodeId} {node : Node} (found : tree.get? other = some node)
    (root : NodeId) (order : PriorityType) :
    ∃ newNode, (promoted tree root order).get? other = some newNode := by
  rw [get?_promoted, found]
  exact ⟨_, rfl⟩

theorem isChild_promoted {parent child : NodeId}
    (step : (promoted tree root order).IsChild parent child) :
    tree.IsChild parent child ∧ child ≠ root := by
  rcases step with ⟨newNode, newFound, childMem⟩
  rcases get?_promoted_eq_some newFound with ⟨node, found, edges, _⟩
  rw [Node.children, edges] at childMem
  rcases List.mem_map.mp childMem with ⟨edge, edgeMem, rfl⟩
  rw [List.mem_filter, decide_eq_true_eq] at edgeMem
  exact ⟨⟨node, found, List.mem_map_of_mem edgeMem.1⟩, edgeMem.2⟩

theorem exists_state_promoted_iff {node : Node} (found : tree.get? root = some node)
    {id : NodeId} :
    (∃ node, (promoted tree root order).get? id = some node ∧ node.isState = true) ↔
      id = root ∨ ∃ node, tree.get? id = some node ∧ node.isState = true := by
  constructor
  · rintro ⟨newNode, newFound, isState⟩
    rcases get?_promoted_eq_some newFound with ⟨old, oldFound, _, kind⟩
    by_cases same : id = root
    · exact .inl same
    · rw [if_neg same] at kind
      rw [Node.isState, kind] at isState
      exact .inr ⟨old, oldFound, isState⟩
  · rintro (rfl | ⟨old, oldFound, isState⟩)
    · rcases get?_promoted_of_some found id order with ⟨newNode, newFound⟩
      rcases get?_promoted_eq_some newFound with ⟨_, _, _, kind⟩
      rw [if_pos rfl] at kind
      exact ⟨newNode, newFound, by rw [Node.isState, kind]; rfl⟩
    · rcases get?_promoted_of_some oldFound root order with ⟨newNode, newFound⟩
      rcases get?_promoted_eq_some newFound with ⟨other, otherFound, _, kind⟩
      rw [oldFound, Option.some.injEq] at otherFound
      subst other
      refine ⟨newNode, newFound, ?_⟩
      rw [Node.isState, kind]
      split
      · rfl
      · exact isState

theorem coherent_promoted (coherent : tree.Coherent) : (promoted tree root order).Coherent where
  ordered := by
    simp only [promoted, Tree.modify, Pool.ids_mapNodes, Pool.ids_modify]
    exact coherent.ordered
  bounded := by
    simp only [promoted, Tree.modify, Pool.ids_mapNodes, Pool.ids_modify]
    exact coherent.bounded
  closed := by
    intro parent child step
    rcases isChild_promoted step with ⟨old, different⟩
    rcases coherent.closed parent child old with ⟨node, found, ordinary⟩
    rcases get?_promoted_of_some found root order with ⟨newNode, newFound⟩
    rcases get?_promoted_eq_some newFound with ⟨oldNode, oldFound, _, kind⟩
    rw [found, Option.some.injEq] at oldFound
    rw [if_neg different, ← oldFound] at kind
    exact ⟨newNode, newFound, by rw [Node.isState, kind]; exact ordinary⟩
  leaves := by
    intro id newNode newFound leaf
    rcases get?_promoted_eq_some newFound with ⟨node, found, edges, kind⟩
    rw [Node.isLeaf, kind] at leaf
    split at leaf
    · cases leaf
    · rw [edges, coherent.leaves id node found leaf]
      rfl
  acyclic := Tree.acyclic_of_subgraph coherent.acyclic fun _ _ step => (isChild_promoted step).1

theorem fitted_promoted (fitted : tree.Fitted) (root : NodeId) (order : PriorityType) :
    (promoted tree root order).Fitted := by
  refine fitted.of_edges ?_ ?_
  · intro id newNode newFound edge member
    rcases get?_promoted_eq_some newFound with ⟨other, otherFound, edges, _⟩
    exact ⟨id, other, otherFound, List.mem_of_mem_filter (edges ▸ member)⟩
  · intro _ child _ parameters defined
    rcases Option.bind_eq_some_iff.mp defined with ⟨newChild, newFound, carried⟩
    rcases get?_promoted_eq_some newFound with ⟨other, otherFound, _, otherKind⟩
    rw [Node.parameters?, otherKind] at carried
    split at carried
    · cases carried
    · exact Option.bind_eq_some_iff.mpr ⟨other, otherFound, carried⟩

namespace Assembly.Sound

variable {assembly : Assembly}

/-- The root of a document without states becomes its only state, or the document gets none. -/
theorem recoverState (sound : assembly.Sound) (none : assembly.states = []) (rootId : Option Int) :
    (assembly.recoverState rootId).Sound := by
  rw [Assembly.recoverState]
  split
  · next root builder done =>
      rcases Option.bind_eq_some_iff.mp done with ⟨named, _, rest⟩
      rcases Option.bind_eq_some_iff.mp rest with ⟨after, made, same⟩
      simp only [Option.pure_def, Option.some.injEq, Prod.mk.injEq] at same
      rcases same with ⟨rfl, rfl⟩
      rcases promoteToState?_eq_some made with ⟨node, order, found, kind, rfl⟩
      refine Assembly.Sound.warn ?_ _
      exact {
        coherent := (coherent_promoted sound.coherent).of_pool rfl rfl
        fitted := (fitted_promoted sound.fitted named order).of_pool rfl
        states_distinct := List.nodup_singleton _
        mem_states := by
          intro id
          change id ∈ [named] ↔
            ∃ node, (promoted assembly.builder.tree named order).get? id = some node ∧ _
          rw [exists_state_promoted_iff found, ← sound.mem_states, none]
          simp }
  · exact sound.warn _

/-- The states that an assembly knows are the ones that count. -/
theorem listed_states (sound : assembly.Sound) :
    listed assembly.builder assembly.states =
      { assembly.builder.tree with states := assembly.states } := by
  rw [listed, List.filter_eq_self.mpr]
  intro id member
  rcases (sound.mem_states id).mp member with ⟨node, found, isState⟩
  simp [Builder.get?, found, isState]

theorem finish (sound : assembly.Sound) : (assembly.builder.finish assembly.states).Rooted := by
  have known : ({ assembly.builder.tree with states := assembly.states } : Tree).Coherent :=
    sound.coherent.of_pool rfl rfl
  have cases := restyles_finish assembly.builder assembly.states
  rw [sound.listed_states] at cases
  rcases cases with ⟨_, restyles⟩ | ⟨some, restyles⟩
  · apply restyles.rooted
    exact known.rooted_insertState sound.states_distinct sound.mem_states defaultStateName
  · apply restyles.rooted
    exact {
      toCoherent := known
      states_nonempty := some
      states_distinct := sound.states_distinct
      mem_states := sound.mem_states }

end Assembly.Sound

/-- The assembly with a state, if one can be recovered. -/
def Assembly.recovered (assembly : Assembly) (rootId : Option Int) : Assembly :=
  if assembly.states.isEmpty then assembly.recoverState rootId else assembly

theorem Assembly.Sound.recovered {assembly : Assembly} (sound : assembly.Sound)
    (rootId : Option Int) : (assembly.recovered rootId).Sound := by
  rw [Assembly.recovered]
  split
  · next none => exact sound.recoverState (List.isEmpty_iff.mp none) rootId
  · exact sound

/-- The assembly that a load finishes. -/
def TreeDraft.recovered (draft : TreeDraft) : Assembly :=
  draft.assembled.recovered draft.rootId

theorem TreeDraft.loaded_eq (draft : TreeDraft) :
    draft.loaded =
      ⟨draft.recovered.builder.finish draft.recovered.states, draft.recovered.warnings⟩ :=
  rfl

theorem TreeDraft.sound_recovered (draft : TreeDraft) : draft.recovered.Sound :=
  (Assembly.Sound.assembled draft).recovered draft.rootId

/-- The tree of any draft hangs on its states. -/
theorem TreeDraft.rooted_loaded (draft : TreeDraft) : draft.loaded.tree.Rooted :=
  draft.sound_recovered.finish

/-- The bindings in the tree of any draft are in step. -/
theorem TreeDraft.fitted_loaded (draft : TreeDraft) : draft.loaded.tree.Fitted :=
  fitted_finish _ _

end BehaviorTree.Document

namespace BehaviorTree.Tree

open BehaviorTree.Document

theorem load_eq_ok {text : String} {loaded : Loaded} (accepted : load text = .ok loaded) :
    ∃ draft, TreeDraft.shape.read text = .ok draft ∧ draft.loaded = loaded := by
  rw [load] at accepted
  cases read : TreeDraft.shape.read text with
  | error failure => simp [read, Except.map] at accepted
  | ok draft =>
      simp only [read, Except.map, Except.ok.injEq] at accepted
      exact ⟨draft, rfl, accepted⟩

theorem load_of_read {text : String} {draft : TreeDraft}
    (decoded : TreeDraft.shape.read text = .ok draft) : load text = .ok draft.loaded := by
  rw [load, decoded, Except.map]

/-- What has been computed about the draft of a text holds for a draft. -/
theorem exists_of_read {Summary : Type} {text : String} {summarize : TreeDraft → Summary}
    {summary : Summary}
    (computed : (TreeDraft.shape.read text).toOption.map summarize = some summary) :
    ∃ draft, TreeDraft.shape.read text = .ok draft ∧ summarize draft = summary := by
  rcases decoded : TreeDraft.shape.read text with failure | draft
  · rw [decoded] at computed
    cases computed
  · rw [decoded] at computed
    exact ⟨draft, rfl, Option.some.inj computed⟩

theorem rooted_load {text : String} {loaded : Loaded} (accepted : load text = .ok loaded) :
    loaded.tree.Rooted := by
  rcases load_eq_ok accepted with ⟨draft, _, rfl⟩
  exact draft.rooted_loaded

theorem fitted_load {text : String} {loaded : Loaded} (accepted : load text = .ok loaded) :
    loaded.tree.Fitted := by
  rcases load_eq_ok accepted with ⟨draft, _, rfl⟩
  exact draft.fitted_loaded

end BehaviorTree.Tree
