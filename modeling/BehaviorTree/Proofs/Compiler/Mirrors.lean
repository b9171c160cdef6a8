import BehaviorTree.Compiler.TreeCheck
import BehaviorTree.Proofs.Tree.Mirrors

/-!
# What a report depends on

The compiler looks at a tree from its states and shows no identities.  A tree and its mirror have the
same issues, in the same order, so the whole report is the same.
-/

namespace BehaviorTree

open BehaviorTree.Compiler

namespace Tree.Mirrors

variable {tree mirror : Tree} {place : NodeId → NodeId}

theorem reachedNodes (mirrors : tree.Mirrors place mirror) :
    mirror.reachedNodes = tree.reachedNodes.map (Node.renamed place) := by
  rw [Tree.reachedNodes, mirrors.hierarchy, List.filterMap_map, Tree.reachedNodes,
    List.map_filterMap]
  apply List.filterMap_congr
  intro id member
  exact mirrors.nodes id (mem_hierarchy_iff.mp member).1

theorem isReached_child {node : Node} (member : node ∈ tree.reachedNodes) :
    ∀ child ∈ node.children, tree.IsReached child := by
  intro child childMem
  rcases List.mem_filterMap.mp member with ⟨id, reached, found⟩
  exact (mem_hierarchy_iff.mp reached).1.child ⟨node, found, childMem⟩

/-! ## Issues of one node -/

section

variable {node : Node} (mirrors : tree.Mirrors place mirror)
  (reached : ∀ child ∈ node.children, tree.IsReached child)
include mirrors reached

theorem edgeIssues : edgeIssues mirror (node.renamed place) = edgeIssues tree node := by
  simp only [Compiler.edgeIssues, Node.edges_renamed, List.flatMap_map]
  apply List.flatMap_congr
  intro edge member
  have found := mirrors.nodes edge.child (reached edge.child (List.mem_map_of_mem member))
  simp [Edge.renamed, found, Function.comp_def]

theorem childNodes :
    (node.renamed place).children.filterMap mirror.get? =
      (node.children.filterMap tree.get?).map (Node.renamed place) := by
  rw [Node.children_renamed, List.filterMap_map, List.map_filterMap]
  apply List.filterMap_congr
  intro child member
  exact mirrors.nodes child (reached child member)

theorem compositeIssues (composite : Composite) :
    compositeIssues mirror (node.renamed place) composite =
      compositeIssues tree node composite := by
  have neverFail : neverFailIssue? node.name composite ∘ Node.renamed place =
      neverFailIssue? node.name composite := rfl
  have unreachable : unreachableIssue? node.name ∘ Node.renamed place =
      unreachableIssue? node.name := rfl
  simp only [Compiler.compositeIssues, mirrors.childNodes reached, Node.name_renamed,
    Node.edges_renamed, List.isEmpty_map, ← List.map_dropLast, List.filterMap_map, neverFail,
    unreachable]

theorem counterIssues (decorator : Decorator) :
    counterIssues mirror (node.renamed place) decorator =
      counterIssues tree node decorator := by
  rcases children : node.children with _ | ⟨child, rest⟩
  · simp [Compiler.counterIssues, children]
  · have found := mirrors.nodes child (reached child (by simp [children]))
    simp only [Compiler.counterIssues, Node.children_renamed, children, List.map_cons,
      List.head?_cons, Option.bind_some, found]
    rcases tree.get? child with _ | childNode
    · rfl
    · rcases decorator.accessLimit?.map AccessLimit.keyType with _ | keyType
      · rfl
      · cases keyType <;> rfl

theorem flowIssues : flowIssues mirror (node.renamed place) = flowIssues tree node := by
  simp only [Compiler.flowIssues, Node.kind_renamed]
  cases node.kind with
  | composite composite => exact mirrors.compositeIssues reached composite
  | decorator decorator => exact mirrors.counterIssues reached decorator
  | action | condition | changeState => rfl

theorem nodeIssues (sets : List AccessKeySet) (names : List String) (position : Nat) :
    nodeIssues mirror sets names (node.renamed place) position =
      nodeIssues tree sets names node position := by
  have kind : kindIssues mirror sets (node.renamed place) = kindIssues tree sets node := by
    simp [kindIssues, mirrors.hasState]
  simp only [Compiler.nodeIssues, mirrors.edgeIssues reached, kind]
  rfl

end

/-! ## Reports -/

theorem issues (mirrors : tree.Mirrors place mirror) (sets : List AccessKeySet) :
    mirror.issues sets = tree.issues sets := by
  have defaultState : defaultStateIssues mirror = defaultStateIssues tree := by
    simp [defaultStateIssues, mirrors.defaultState, mirrors.hasState, mirrors.name]
  have names : mirror.reachedNodes.map Node.name = tree.reachedNodes.map Node.name := by
    simp [mirrors.reachedNodes, Function.comp_def]
  rw [Tree.issues, names, defaultState, mirrors.reachedNodes, List.zipIdx_map, List.flatMap_map,
    List.flatMap_map, Tree.issues]
  apply congrArg₂
  · apply congrArg
    apply List.flatMap_congr
    rintro ⟨node, position⟩ member
    exact mirrors.nodeIssues (isReached_child (List.fst_mem_of_mem_zipIdx member)) sets _ position
  · apply List.flatMap_congr
    intro node member
    exact mirrors.flowIssues (isReached_child member)

theorem compile (mirrors : tree.Mirrors place mirror) (sets : List AccessKeySet)
    (options : Options) : mirror.compile sets options = tree.compile sets options := by
  simp [Tree.compile, mirrors.issues sets]

end Tree.Mirrors

end BehaviorTree
