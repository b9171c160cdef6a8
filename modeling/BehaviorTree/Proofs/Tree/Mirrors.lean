import BehaviorTree.Proofs.Tree.Numbering
import Mathlib.Data.List.Find

/-!
# What the states reach, under other identities

A tree is mirrored in another one if everything that its states reach stands there as well, perhaps
under other identities.  What either tree holds besides does not matter: the hierarchies are the same
lists, up to these identities, and the same names are names of states.
-/

namespace BehaviorTree

open Relation

/-! ## Other identities -/

def Edge.renamed (place : NodeId → NodeId) (edge : Edge) : Edge :=
  { edge with child := place edge.child }

/-- The node with other identities for its children. -/
def Node.renamed (place : NodeId → NodeId) (node : Node) : Node :=
  { node with edges := node.edges.map (Edge.renamed place) }

namespace Node

variable (place : NodeId → NodeId) (node : Node)

@[simp]
theorem name_renamed : (node.renamed place).name = node.name :=
  rfl

@[simp]
theorem weight_renamed : (node.renamed place).weight = node.weight :=
  rfl

@[simp]
theorem kind_renamed : (node.renamed place).kind = node.kind :=
  rfl

@[simp]
theorem edges_renamed : (node.renamed place).edges = node.edges.map (Edge.renamed place) :=
  rfl

@[simp]
theorem children_renamed : (node.renamed place).children = node.children.map place := by
  simp [children, Edge.renamed, Function.comp_def]

@[simp]
theorem renamed_id : node.renamed id = node := by
  have same : Edge.renamed id = id := rfl
  simp [renamed, same]

end Node

namespace Tree

/-! ## Reached identities -/

variable {tree mirror : Tree} {place : NodeId → NodeId} {id : NodeId}

theorem isReached_of_state (member : id ∈ tree.states) : tree.IsReached id :=
  ⟨id, member, .refl⟩

theorem IsReached.child {below : NodeId} (reached : tree.IsReached id)
    (step : tree.IsChild id below) : tree.IsReached below := by
  rcases reached with ⟨state, member, path⟩
  exact ⟨state, member, path.tail step⟩

/-! ## Mirrors -/

/-- Everything that the states of a tree reach stands in another tree, under other identities. -/
structure Mirrors (place : NodeId → NodeId) (tree mirror : Tree) : Prop where
  name : mirror.name = tree.name
  defaultState : mirror.defaultState = tree.defaultState
  states : mirror.states = tree.states.map place
  distinct : ∀ id, tree.IsReached id → ∀ other, tree.IsReached other →
    place id = place other → id = other
  nodes : ∀ id, tree.IsReached id →
    mirror.get? (place id) = (tree.get? id).map (Node.renamed place)

namespace Mirrors

theorem hierarchy (mirrors : tree.Mirrors place mirror) :
    mirror.hierarchy = tree.hierarchy.map place := by
  have walked : mirror.walk (tree.states.map place) (List.map place []) =
      ((tree.walk tree.states []).1.map place, (tree.walk tree.states []).2.map place) := by
    apply walk_map tree.IsReached mirrors.distinct
    · intro id child reached step
      exact reached.child step
    · intro id reached
      simp [mirrors.nodes id reached, Function.comp_def]
    · intro id member
      exact isReached_of_state member
    · simp
  rw [hierarchy_eq_walk, hierarchy_eq_walk, mirrors.states]
  exact congrArg Prod.snd walked

theorem state? (mirrors : tree.Mirrors place mirror) (name : String) :
    mirror.state? name = (tree.state? name).map place := by
  simp only [Tree.state?, mirrors.states, List.find?_map]
  congr 1
  apply List.find?_congr
  intro id member
  rw [Function.comp_apply, mirrors.nodes id (isReached_of_state member), Option.any_map]
  rfl

theorem hasState (mirrors : tree.Mirrors place mirror) (name : String) :
    mirror.hasState name = tree.hasState name := by
  simp [Tree.hasState, mirrors.state? name]

end Mirrors

end Tree

end BehaviorTree
