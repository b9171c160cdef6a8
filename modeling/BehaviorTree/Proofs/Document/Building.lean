import BehaviorTree.Proofs.Document.Assembly
import BehaviorTree.Proofs.Tree.Refusals

/-!
# Built trees

A builder checks less than an editor does, and it takes its calls in any order: a node may become a
state after edges have been attached to it and below it.  No matter what it is told, the tree that
it finishes is well formed.  So is every tree of a document, and there the states are all listed.
-/

namespace BehaviorTree

open BehaviorTree.Document BehaviorTree.Json

/-! ## Calls as data -/

/-- A call on a builder with its arguments. -/
inductive Builder.Call where
  | addNode (node : Node)
  | attach (parent child : NodeId) (bindings : ParameterSet)
  | promoteToState (id : NodeId)
  | setDefaultState (name : String)
  | setExpandMethods (expandMethods : Bool)

/-- The builder after a call, which leaves it as it was if it is refused. -/
def Builder.Call.apply (builder : Builder) : Builder.Call → Builder
  | addNode node => builder.addNode node
  | attach parent child bindings =>
      match builder.attach parent child bindings with
      | .ok after => after
      | .error _ => builder
  | promoteToState id => (builder.promoteToState? id).getD builder
  | setDefaultState name => builder.setDefaultState name
  | setExpandMethods expandMethods => builder.setExpandMethods expandMethods

/-- An added node brings no edges with it. -/
def Builder.Call.IsBare : Builder.Call → Prop
  | addNode node => node.edges = []
  | _ => True

def Builder.applyAll (calls : List Builder.Call) (builder : Builder) : Builder :=
  calls.foldl Builder.Call.apply builder

/-! ## Well-formed trees -/

/-- A coherent graph with states, all of them pooled. -/
structure Tree.WellFormed (tree : Tree) : Prop extends tree.Coherent where
  states_nonempty : tree.states ≠ []
  states_found : ∀ id ∈ tree.states, ∃ node, tree.get? id = some node ∧ node.isState = true

namespace Tree

variable {tree after : Tree}

theorem Rooted.wellFormed (rooted : tree.Rooted) : tree.WellFormed where
  toCoherent := rooted.toCoherent
  states_nonempty := rooted.states_nonempty
  states_found := fun id => (rooted.mem_states id).mp

theorem WellFormed.anchored (wellFormed : tree.WellFormed) : tree.Anchored where
  toCoherent := wellFormed.toCoherent
  states_created := by
    intro id member
    rcases wellFormed.states_found id member with ⟨node, found, _⟩
    exact wellFormed.bounded id (Pool.mem_ids_of_get? found)
  states_kind := by
    intro id member node found
    rcases wellFormed.states_found id member with ⟨other, otherFound, isState⟩
    rw [found, Option.some.injEq] at otherFound
    exact otherFound ▸ isState

theorem Restyles.wellFormed (restyles : tree.Restyles after) (wellFormed : tree.WellFormed) :
    after.WellFormed where
  toCoherent := restyles.coherent wellFormed.toCoherent
  states_nonempty := restyles.states ▸ wellFormed.states_nonempty
  states_found := by
    intro id member
    apply (restyles.exists_state_iff id).mpr
    exact wellFormed.states_found id (restyles.states ▸ member)

/-- A graph without states gets one. -/
theorem Coherent.wellFormed_insertState (coherent : tree.Coherent) (none : tree.states = [])
    (name : String) : (tree.insertState name).WellFormed where
  toCoherent := coherent.insertState name
  states_nonempty := List.append_ne_nil_of_right_ne_nil _ (List.cons_ne_nil _ _)
  states_found := by
    intro id member
    rcases List.mem_append.mp member with old | new
    · simp [none] at old
    · rw [List.mem_singleton] at new
      exact ⟨Node.state name, (get?_insertState_iff coherent).mpr (.inr ⟨new, rfl⟩),
        isState_state name⟩

end Tree

/-! ## Runs of a builder -/

namespace Builder

variable {builder : Builder}

theorem coherent_apply {call : Call} (bare : call.IsBare) (coherent : builder.tree.Coherent) :
    (call.apply builder).tree.Coherent := by
  cases call with
  | addNode node => exact coherent.insert bare
  | attach parent child bindings =>
      simp only [Call.apply]
      split
      · next after accepted =>
          rcases Tree.attached_eq_ok_iff.mp (attached_of_attach accepted)
            with ⟨_, _, _, attachable, _, same⟩
          rw [same]
          exact attachable.coherent coherent
      · exact coherent
  | promoteToState id =>
      simp only [Call.apply]
      cases promotion : builder.promoteToState? id with
      | none => exact coherent
      | some after =>
          rcases promoteToState?_eq_some promotion with ⟨_, _, _, _, rfl⟩
          exact coherent_promoted coherent
  | setDefaultState name => exact coherent.of_pool rfl rfl
  | setExpandMethods expandMethods => exact coherent.of_pool rfl rfl

theorem coherent_applyAll (calls : List Call) (bare : ∀ call ∈ calls, call.IsBare)
    (coherent : builder.tree.Coherent) : (builder.applyAll calls).tree.Coherent := by
  induction calls generalizing builder with
  | nil => exact coherent
  | cons call calls ih =>
      apply ih
      · exact fun later member => bare later (List.mem_cons_of_mem _ member)
      · exact coherent_apply (bare call List.mem_cons_self) coherent

theorem wellFormed_finish (coherent : builder.tree.Coherent) (ids : List NodeId) :
    (builder.finish ids).WellFormed := by
  have known : (listed builder ids).Coherent := coherent.of_pool rfl rfl
  rcases restyles_finish builder ids with ⟨none, restyles⟩ | ⟨some, restyles⟩
  · apply restyles.wellFormed
    exact known.wellFormed_insertState none defaultStateName
  · apply restyles.wellFormed
    refine ⟨known, some, ?_⟩
    intro id member
    exact (Option.any_eq_true _ _).mp (List.mem_filter.mp member).2

theorem wellFormed_applyAll (name : String) (calls : List Call)
    (bare : ∀ call ∈ calls, call.IsBare) (ids : List NodeId) :
    (((new name).applyAll calls).finish ids).WellFormed := by
  apply wellFormed_finish
  apply coherent_applyAll calls bare
  exact Tree.coherent_of_pool_eq_nil rfl

end Builder

/-! ## Well-formed sources -/

namespace Tree

/-- Whatever a builder is told, and whatever a document holds besides its top level, the tree is
well formed.  A document leaves no state unlisted. -/
theorem wellFormed_built_and_loaded :
    (∀ (name : String) (calls : List Builder.Call), (∀ call ∈ calls, call.IsBare) → ∀ ids,
      (((Builder.new name).applyAll calls).finish ids).WellFormed) ∧
    ∀ text draft, TreeDraft.shape.read text = .ok draft →
      ∃ loaded, load text = .ok loaded ∧ loaded.tree.WellFormed ∧ loaded.tree.states.Nodup ∧
        ∀ id, id ∈ loaded.tree.states ↔
          ∃ node, loaded.tree.get? id = some node ∧ node.isState = true := by
  constructor
  · exact Builder.wellFormed_applyAll
  · intro text draft read
    have rooted := draft.rooted_loaded
    refine ⟨draft.loaded, ?_, rooted.wellFormed, rooted.states_distinct, rooted.mem_states⟩
    rw [load, read, Except.map]

/-- Calls that would close a cycle, hang children below a leaf or a state below a node, and turn
nodes that have parents into states. -/
def tangledCalls : List Builder.Call :=
  [.addNode (.fresh (.composite (.priority .highestPriority))),
    .addNode (.fresh (.composite .sequence)),
    .addNode (.fresh (.composite (.priority .runningNode))),
    .addNode (.fresh (.action {})),
    .attach ⟨0⟩ ⟨1⟩ [], .attach ⟨1⟩ ⟨2⟩ [], .attach ⟨2⟩ ⟨0⟩ [],
    .attach ⟨3⟩ ⟨1⟩ [], .attach ⟨2⟩ ⟨3⟩ [], .attach ⟨2⟩ ⟨9⟩ [],
    .promoteToState ⟨2⟩, .attach ⟨1⟩ ⟨2⟩ [], .promoteToState ⟨3⟩, .promoteToState ⟨0⟩,
    .setDefaultState "Nowhere"]

/-- A document with a repeated identity, an unknown kind, values of wrong types, and edges that lead
back and to nothing. -/
def tangledText : String :=
  "\x7b\"Behaviors\":[" ++
    "\x7b\"BehaviorType\":\"Composite\",\"Id\":0\x7d," ++
    "\x7b\"BehaviorType\":\"Action\",\"Id\":0\x7d," ++
    "\x7b\"BehaviorType\":\"Wish\",\"Id\":1\x7d,7]," ++
  "\"Hierarchy\":[\x7b\"Id\":0,\"Children\":" ++
    "[\x7b\"ChildId\":0\x7d,\x7b\"ChildId\":1\x7d]\x7d,\"?\"]\x7d"

theorem wellFormed_tangled :
    (((Builder.new "Tangle").applyAll tangledCalls).finish [⟨3⟩, ⟨0⟩, ⟨9⟩, ⟨0⟩]).WellFormed ∧
    ∃ loaded, load tangledText = .ok loaded ∧ loaded.tree.WellFormed ∧
      loaded.tree.states.Nodup := by
  have bare : ∀ call ∈ tangledCalls, call.IsBare := by
    simp [tangledCalls, Builder.Call.IsBare, Node.fresh]
  have decodes : (TreeDraft.shape.read tangledText).isOk = true := by decide +kernel
  rcases read : TreeDraft.shape.read tangledText with failure | draft
  · simp [read, Except.isOk, Except.toBool] at decodes
  · rcases wellFormed_built_and_loaded.2 tangledText draft read with
      ⟨loaded, accepted, wellFormed, distinct, _⟩
    exact ⟨wellFormed_built_and_loaded.1 "Tangle" tangledCalls bare _,
      loaded, accepted, wellFormed, distinct⟩

end Tree

end BehaviorTree
