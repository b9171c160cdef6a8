import BehaviorTree.Proofs.Document.EditedTrees

/-!
# Definitions of a node

A node gets another parameter or loses one.  This is seen at the node and at the edges to it, wherever
they start, and nowhere else.  Since the bindings of these edges are in step before, a parameter that
is added comes last in all of them, and taking it back leaves the tree as it was.
-/

namespace BehaviorTree

variable {tree after origin : Tree} {id : NodeId}

/-! ## Edges to a node -/

/-- The edge with other bindings if it leads to the node. -/
def Edge.rebound (id : NodeId) (rebind : ParameterSet → ParameterSet) (edge : Edge) : Edge :=
  if edge.child = id then { edge with bindings := rebind edge.bindings } else edge

theorem Edge.rebound_self (id : NodeId) (edge : Edge) :
    edge.rebound id (fun bindings => bindings) = edge := by
  rw [rebound]
  split <;> rfl

theorem Edge.rebound_rebound (first second : ParameterSet → ParameterSet) (edge : Edge) :
    (edge.rebound id first).rebound id second = edge.rebound id (second ∘ first) := by
  by_cases leads : edge.child = id
  · simp [rebound, leads]
  · simp [rebound, leads]

theorem Node.withParameters_back {node : Node} {definitions : ParameterSet}
    (carried : node.parameters? = some definitions) (extended : ParameterSet) :
    (node.withParameters extended).withParameters definitions = node := by
  have kind := Document.withParameters_self node.kind
  rw [show node.kind.parameters? = some definitions from carried, Option.getD_some] at kind
  simp only [Node.withParameters, Document.withParameters_withParameters, kind]

namespace Tree

variable {definitions extended : ParameterSet} {rebind : ParameterSet → ParameterSet}

/-- Something holds of the bindings of every edge to a node. -/
def BindingsTo (tree : Tree) (id : NodeId) (holds : ParameterSet → Prop) : Prop :=
  ∀ parent node, tree.get? parent = some node → ∀ edge ∈ node.edges, edge.child = id →
    holds edge.bindings

theorem BindingsTo.imp {first second : ParameterSet → Prop} (bound : tree.BindingsTo id first)
    (implies : ∀ bindings, first bindings → second bindings) : tree.BindingsTo id second :=
  fun parent node found edge member leads =>
    implies edge.bindings (bound parent node found edge member leads)

theorem Fitted.bindingsTo (fitted : tree.Fitted) (carried : tree.definitions? id = some definitions) :
    tree.BindingsTo id fun bindings => bindings.InStep definitions :=
  fun parent node found edge member leads =>
    fitted parent node found edge member definitions (leads ▸ carried)

theorem BindingsTo.map_rebound {other : ParameterSet → ParameterSet} {parent : NodeId} {node : Node}
    (same : tree.BindingsTo id fun bindings => rebind bindings = other bindings)
    (found : tree.get? parent = some node) :
    node.edges.map (Edge.rebound id rebind) = node.edges.map (Edge.rebound id other) := by
  refine List.map_congr_left fun edge member => ?_
  rw [Edge.rebound, Edge.rebound]
  split
  · next leads => rw [same parent node found edge member leads]
  · rfl

/-! ## Other definitions -/

/-- The tree with other definitions of one node and with other bindings of the edges to it.  The other
properties of the node, the other edges and the other nodes are as they were, and so is whatever is no
matter of the pool. -/
structure Redefines (tree : Tree) (id : NodeId) (definitions : ParameterSet)
    (rebind : ParameterSet → ParameterSet) (after : Tree) : Prop where
  rest : after = { tree with pool := after.pool }
  ids : after.pool.ids = tree.pool.ids
  defined : after.definitions? id = some definitions
  nodes : ∀ other, after.get? other = (tree.get? other).map fun node =>
    (if other = id then node.withParameters definitions else node).withEdges
      (node.edges.map (Edge.rebound id rebind))

theorem definitions?_redefined (carried : tree.definitions? id = some definitions)
    (extended : ParameterSet) :
    (tree.modify id fun node => node.withParameters extended).definitions? id =
      some extended := by
  rcases Option.bind_eq_some_iff.mp carried with ⟨node, found, old⟩
  rw [definitions?, get?_modify, found, Option.map_some, if_pos rfl, Option.bind_some,
    parameters?_withParameters old]

theorem redefines_withDefinitions (carried : tree.definitions? id = some definitions)
    (extended : ParameterSet) :
    tree.Redefines id extended (fun bindings => bindings.matched extended)
      (tree.withDefinitions id extended) where
  rest := rfl
  ids := (restyles_withDefinitions tree id extended).ids
  defined := (definitions?_mapEdges _ _ id).trans (definitions?_redefined carried extended)
  nodes := by
    intro other
    rw [withDefinitions, get?_refitted, get?_modify, Option.map_map]
    refine Option.map_congr fun node _ => ?_
    simp only [Function.comp_apply, fitBindings, definitions?_redefined carried extended]
    split <;> rfl

theorem redefines_aligned (carried : tree.definitions? id = some definitions)
    (extended : ParameterSet) :
    tree.Redefines id extended (ParameterSet.aligned extended) (tree.withDefinitions id extended) := by
  simpa only [ParameterSet.matched_eq_aligned] using redefines_withDefinitions carried extended

namespace Redefines

theorem congr {other : ParameterSet → ParameterSet}
    (redefines : tree.Redefines id definitions rebind after)
    (same : tree.BindingsTo id fun bindings => rebind bindings = other bindings) :
    tree.Redefines id definitions other after where
  rest := redefines.rest
  ids := redefines.ids
  defined := redefines.defined
  nodes := by
    intro parent
    rw [redefines.nodes]
    refine Option.map_congr fun node found => ?_
    rw [same.map_rebound found]

/-- Once definitions and bindings are as before, so is the tree. -/
theorem undone {last : Tree} {restore : ParameterSet → ParameterSet}
    (first : tree.Redefines id extended rebind after)
    (second : after.Redefines id definitions restore last)
    (carried : tree.definitions? id = some definitions) (distinct : tree.pool.ids.Nodup)
    (same : tree.BindingsTo id fun bindings => restore (rebind bindings) = bindings) :
    last = tree := by
  apply eq_of_get? distinct
  · rw [second.rest, first.rest]
  · rw [second.ids, first.ids]
  · intro parent
    rw [second.nodes, first.nodes, Option.map_map]
    refine (Option.map_congr fun node found => ?_).trans Option.map_id'
    have edges : (node.edges.map (Edge.rebound id rebind)).map (Edge.rebound id restore) =
        node.edges := by
      calc (node.edges.map (Edge.rebound id rebind)).map (Edge.rebound id restore)
        _ = node.edges.map (Edge.rebound id (restore ∘ rebind)) := by
          rw [List.map_map]
          exact List.map_congr_left fun edge _ => edge.rebound_rebound rebind restore
        _ = node.edges.map (Edge.rebound id fun bindings => bindings) := same.map_rebound found
        _ = node.edges :=
          (List.map_congr_left fun edge _ => edge.rebound_self id).trans (List.map_id _)
    -- Every node has its edges back; the one node has its definitions back as well.
    by_cases isNode : parent = id
    · subst isNode
      rw [definitions?, found, Option.bind_some] at carried
      simp only [Function.comp_apply, ↓reduceIte]
      change ((node.withParameters extended).withParameters definitions).withEdges
        ((node.edges.map _).map _) = node
      rw [edges, Node.withParameters_back carried]
      rfl
    · simp only [Function.comp_apply, isNode, ↓reduceIte]
      change node.withEdges ((node.edges.map _).map _) = node
      rw [edges]
      rfl

end Redefines

/-- A new definition is bound last by every edge. -/
theorem redefines_concat {parameter : Parameter}
    (carried : tree.definitions? id = some definitions) (fresh : parameter.name ∉ definitions.names)
    (inStep : tree.BindingsTo id fun bindings => bindings.InStep definitions) :
    tree.Redefines id (definitions ++ [parameter]) (· ++ [parameter])
      (tree.withDefinitions id (definitions ++ [parameter])) :=
  (redefines_withDefinitions carried _).congr <|
    inStep.imp fun _ follows => follows.matched_concat fresh

theorem redefines_without (carried : tree.definitions? id = some definitions) (name : String)
    (inStep : tree.BindingsTo id fun bindings => bindings.InStep definitions) :
    tree.Redefines id (definitions.without name) (ParameterSet.kept (definitions.without name))
      (tree.withDefinitions id (definitions.without name)) :=
  (redefines_withDefinitions carried _).congr <|
    inStep.imp fun _ follows => follows.matched_of_subset List.eraseP_subset

end Tree

namespace Edit

/-! ## One parameter more or less -/

open ParameterSet (aligned kept)

variable {answer : Answer}

theorem addParameter_eq_ok_iff {parameter : Parameter} :
    (addParameter id parameter).apply tree = (.ok answer, after) ↔
      ∃ definitions, tree.definitions? id = some definitions ∧ parameter.name ≠ "" ∧
        parameter.name ∉ definitions.names ∧ answer = .done ∧
        after = tree.withDefinitions id (definitions ++ [parameter]) := by
  rw [apply_eq_ok_iff]
  constructor
  · intro accepted
    cases accepted with
    | addParameter found carried added =>
        rcases ParameterSet.add_eq_ok_iff.mp added with ⟨named, fresh, rfl⟩
        exact ⟨_, Option.bind_eq_some_iff.mpr ⟨_, found, carried⟩, named, fresh, rfl, rfl⟩
  · rintro ⟨definitions, carried, named, fresh, rfl, rfl⟩
    rcases Option.bind_eq_some_iff.mp carried with ⟨node, found, defined⟩
    exact .addParameter found defined (ParameterSet.add_eq_ok_iff.mpr ⟨named, fresh, rfl⟩)

theorem removeParameter_eq_ok_iff {name : String} :
    (removeParameter id name).apply tree = (.ok answer, after) ↔
      ∃ definitions removed, tree.definitions? id = some definitions ∧
        definitions.find name = some removed ∧ answer = .parameter removed ∧
        after = tree.withDefinitions id (definitions.without name) := by
  rw [apply_eq_ok_iff]
  constructor
  · intro accepted
    cases accepted with
    | removeParameter found carried defined =>
        exact ⟨_, _, Option.bind_eq_some_iff.mpr ⟨_, found, carried⟩, defined, rfl, rfl⟩
  · rintro ⟨definitions, removed, carried, defined, rfl, rfl⟩
    rcases Option.bind_eq_some_iff.mp carried with ⟨node, found, old⟩
    exact .removeParameter found old defined

/-- A parameter that has been added is given back when it is removed, with the tree as it was. -/
theorem removeParameter_of_added {parameter : Parameter} {definitions : ParameterSet}
    (distinct : tree.pool.ids.Nodup) (carried : tree.definitions? id = some definitions)
    (fresh : parameter.name ∉ definitions.names)
    (inStep : tree.BindingsTo id fun bindings => bindings.InStep definitions) :
    (removeParameter id parameter.name).apply
        (tree.withDefinitions id (definitions ++ [parameter])) =
      (.ok (.parameter parameter), tree) := by
  have added := Tree.redefines_concat carried fresh inStep
  have removed := Tree.redefines_withDefinitions added.defined definitions
  have restored := added.undone removed carried distinct <|
    inStep.imp fun _ follows => follows.matched_of_concat fresh
  refine removeParameter_eq_ok_iff.mpr ⟨_, parameter, added.defined, ?_, rfl, ?_⟩
  · exact ParameterSet.find_concat_self fresh
  · rw [ParameterSet.without_concat_self fresh, restored]

/-- An action with a parameter is twice a child of a state, and once of a detached node. -/
def redefinitionRun : List Edit :=
  [.addNode (.fresh (.action {})),
    .addNode (.fresh (.composite .sequence)),
    .addParameter ⟨1⟩ (.ofType "count" .int),
    .addChild ⟨0⟩ ⟨1⟩ [⟨"count", .int, "7"⟩],
    .addChild ⟨0⟩ ⟨1⟩ [],
    .addChild ⟨2⟩ ⟨1⟩ [⟨"count", .int, "8"⟩]]

/-- A parameter that is added or removed is seen at its node and at the edges to it alone.  Bindings
that are still defined keep their order and their values.  As long as no added node brought edges with
it, a new parameter is bound once, after the others; taking it back leaves the tree as it was; and a
parameter that is removed takes the bindings of its name along, and nothing is bound instead. -/
theorem redefines_confined (isOrigin : origin.IsOrigin) {edits : List Edit}
    (edited : applyAll edits origin = tree) (id : NodeId) :
    (∀ parameter answer after, (addParameter id parameter).apply tree = (.ok answer, after) →
      ∃ definitions, tree.definitions? id = some definitions ∧
        tree.Redefines id (definitions ++ [parameter]) (aligned (definitions ++ [parameter])) after ∧
        ((∀ edit ∈ edits, edit.IsBare) →
          tree.BindingsTo id (fun bindings => parameter.name ∉ bindings.names) ∧
          tree.Redefines id (definitions ++ [parameter]) (· ++ [parameter]) after ∧
          (removeParameter id parameter.name).apply after = (.ok (.parameter parameter), tree))) ∧
    ∀ name answer after, (removeParameter id name).apply tree = (.ok answer, after) →
      ∃ definitions removed, tree.definitions? id = some definitions ∧
        definitions.find name = some removed ∧ answer = .parameter removed ∧
        tree.Redefines id (definitions.without name) (aligned (definitions.without name)) after ∧
        ((∀ edit ∈ edits, edit.IsBare) →
          tree.Redefines id (definitions.without name) (kept (definitions.without name)) after ∧
          (name ∉ (definitions.without name).names →
            tree.Redefines id (definitions.without name)
              (fun bindings => bindings.filter (·.name ≠ name)) after)) := by
  have orderly := orderly_applyAll edits isOrigin.rooted.orderly
  have fitted := fun bare => fitted_applyAll edits bare isOrigin.rooted isOrigin.fitted
  rw [edited] at orderly fitted
  constructor
  · intro parameter answer after done
    rcases addParameter_eq_ok_iff.mp done with ⟨definitions, carried, _, fresh, _, rfl⟩
    refine ⟨definitions, carried, Tree.redefines_aligned carried _, ?_⟩
    intro bare
    have inStep := (fitted bare).bindingsTo carried
    refine ⟨?_, Tree.redefines_concat carried fresh inStep,
      removeParameter_of_added orderly.nodup_ids carried fresh inStep⟩
    exact inStep.imp fun bindings follows => mt follows.mem_names_iff.mp fresh
  · intro name answer after done
    rcases removeParameter_eq_ok_iff.mp done with ⟨definitions, removed, carried, defined, rfl, rfl⟩
    refine ⟨definitions, removed, carried, defined, rfl, Tree.redefines_aligned carried _, ?_⟩
    intro bare
    have inStep := (fitted bare).bindingsTo carried
    have fewer := Tree.redefines_without carried name inStep
    exact ⟨fewer, fun once => fewer.congr (inStep.imp fun _ follows => follows.kept_without once)⟩

theorem redefines_confined_redefinitionRun :
    ∃ extended reduced,
      (addParameter ⟨1⟩ (.ofType "loud" .bool)).apply
          (applyAll redefinitionRun (Tree.new "Guard")) = (.ok .done, extended) ∧
      extended.edge? ⟨0⟩ 0 = some ⟨⟨1⟩, [⟨"count", .int, "7"⟩, ⟨"loud", .bool, "false"⟩]⟩ ∧
      (removeParameter ⟨1⟩ "loud").apply extended =
        (.ok (.parameter (.ofType "loud" .bool)), applyAll redefinitionRun (Tree.new "Guard")) ∧
      (removeParameter ⟨1⟩ "count").apply (applyAll redefinitionRun (Tree.new "Guard")) =
        (.ok (.parameter (.ofType "count" .int)), reduced) ∧
      (applyAll redefinitionRun (Tree.new "Guard")).Redefines ⟨1⟩ []
        (fun bindings => bindings.filter (·.name ≠ "count")) reduced := by
  have bare : ∀ edit ∈ redefinitionRun, edit.IsBare := by
    simp [redefinitionRun, IsBare, Node.fresh]
  have added : ((addParameter ⟨1⟩ (.ofType "loud" .bool)).apply
        (applyAll redefinitionRun (Tree.new "Guard"))).1 = .ok .done ∧
      ((addParameter ⟨1⟩ (.ofType "loud" .bool)).apply
        (applyAll redefinitionRun (Tree.new "Guard"))).2.edge? ⟨0⟩ 0 =
          some ⟨⟨1⟩, [⟨"count", .int, "7"⟩, ⟨"loud", .bool, "false"⟩]⟩ := by
    decide +kernel
  have removed : ((removeParameter ⟨1⟩ "count").apply
      (applyAll redefinitionRun (Tree.new "Guard"))).1 =
        .ok (.parameter (.ofType "count" .int)) := by
    decide +kernel
  have known : (applyAll redefinitionRun (Tree.new "Guard")).definitions? ⟨1⟩ =
      some [.ofType "count" .int] := by
    decide +kernel
  rcases redefines_confined (.fresh "Guard") (rfl : applyAll redefinitionRun _ = _) ⟨1⟩
    with ⟨adding, removing⟩
  rcases adding _ _ _ (Prod.ext added.1 rfl) with ⟨_, _, _, more⟩
  rcases removing _ _ _ (Prod.ext removed rfl) with ⟨definitions, _, carried, _, _, _, less⟩
  rw [known, Option.some.injEq] at carried
  subst carried
  exact ⟨_, _, Prod.ext added.1 rfl, added.2, (more bare).2.2, Prod.ext removed rfl,
    (less bare).2 (by decide)⟩

end Edit

end BehaviorTree
