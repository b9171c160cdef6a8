import BehaviorTree.Compiler.TreeCheck
import BehaviorTree.Proofs.Tree.Reachability
import Mathlib.Data.List.Nodup
import Mathlib.Data.List.Pairwise

/-!
# When a tree compiles

The pass of the compiler is compared with conditions on the tree alone: on its default state, on
each node that a state reaches, and on the names of these nodes together.  Each kind of issue is
tied to its condition by one lemma, which says when the issues of that kind are harmless.
-/

namespace BehaviorTree

namespace Compiler

/-- Nothing among the issues fails a pass that tolerates warnings. -/
def Harmless (issues : List Issue) : Prop :=
  ∀ issue ∈ issues, issue.severity = .warning

/-- A decorator's reference leads to a key of the type that the decorator expects. -/
structure Resolves (sets : List AccessKeySet) (limit : AccessLimit) : Prop where
  key_named : limit.accessKey ≠ ""
  set_named : limit.className ≠ ""
  key_found : ∃ set key, AccessKeySet.named sets limit.className = some set ∧
    set.find limit.accessKey = some key ∧ key.type = limit.keyType

/-- What is wrong with a reference that leads to no key of its own type. -/
inductive LimitFault (sets : List AccessKeySet) (node : String) (limit : AccessLimit) : Issue → Prop
  | unnamedKey (unnamed : limit.accessKey = "") :
      LimitFault sets node limit (.unknownAccessKey node "")
  | unknownSet (named : limit.accessKey ≠ "")
      (unknown : limit.className = "" ∨ AccessKeySet.named sets limit.className = none) :
      LimitFault sets node limit (.unknownAccessKeySet node limit.className)
  | unknownKey {set : AccessKeySet} (named : limit.accessKey ≠ "") (setNamed : limit.className ≠ "")
      (setFound : AccessKeySet.named sets limit.className = some set)
      (unknown : set.find limit.accessKey = none) :
      LimitFault sets node limit (.unknownAccessKey node limit.accessKey)
  | otherType {set : AccessKeySet} {key : AccessKey} (named : limit.accessKey ≠ "")
      (setNamed : limit.className ≠ "")
      (setFound : AccessKeySet.named sets limit.className = some set)
      (keyFound : set.find limit.accessKey = some key) (different : key.type ≠ limit.keyType) :
      LimitFault sets node limit (.keyTypeMismatch node limit.accessKey limit.keyType key.type)

/-- A node is fit for code generation, apart from its name. -/
structure NodeCompiles (tree : Tree) (sets : List AccessKeySet) (node : Node) : Prop where
  weight : node.weight.isFinite = true ∧ node.weight.isPositive = true
  decorator : ∀ content, node.kind = .decorator content → node.edges.length = 1
  composite : ∀ content, node.kind = .composite content → node.edges ≠ []
  destination : ∀ name, node.kind = .changeState name →
    ∃ id ∈ tree.states, ∃ state, tree.get? id = some state ∧ state.name = name
  limit : ∀ content limit, node.kind = .decorator content → content.kind = .accessLimit limit →
    Resolves sets limit
  bindings : ∀ edge ∈ node.edges, "" ∉ edge.bindings.names ∧ edge.bindings.names.Nodup

/-- A tree is fit for code generation. -/
structure TreeCompiles (tree : Tree) (sets : List AccessKeySet) : Prop where
  default_named : tree.defaultState ≠ ""
  default_found : ∃ id ∈ tree.states, ∃ state, tree.get? id = some state ∧
    state.name = tree.defaultState
  nodes : ∀ id node, tree.IsReached id → tree.get? id = some node → NodeCompiles tree sets node
  named : ∀ id node, tree.IsReached id → tree.get? id = some node → node.name ≠ ""
  distinct : ∀ id other node otherNode,
    tree.IsReached id → tree.get? id = some node →
    tree.IsReached other → tree.get? other = some otherNode →
    node.name = otherNode.name → id = other

/-! ## Harmless issues -/

@[simp]
theorem harmless_nil : Harmless [] := by
  simp [Harmless]

@[simp]
theorem harmless_singleton {issue : Issue} : Harmless [issue] ↔ issue.severity = .warning := by
  simp [Harmless]

@[simp]
theorem harmless_append {front back : List Issue} :
    Harmless (front ++ back) ↔ Harmless front ∧ Harmless back := by
  simp [Harmless, or_imp, forall_and]

@[simp]
theorem harmless_flatMap {α : Type} {items : List α} {issues : α → List Issue} :
    Harmless (items.flatMap issues) ↔ ∀ item ∈ items, Harmless (issues item) := by
  simp only [Harmless, List.mem_flatMap, forall_exists_index, and_imp]
  exact ⟨fun all item member issue => all issue item member,
    fun all issue item member => all item member issue⟩

theorem harmless_filterMap {α : Type} {items : List α} {issue? : α → Option Issue} :
    Harmless (items.filterMap issue?) ↔
      ∀ item ∈ items, ∀ issue, issue? item = some issue → issue.severity = .warning := by
  simp only [Harmless, List.mem_filterMap, forall_exists_index, and_imp]
  exact ⟨fun all item member issue => all issue item member,
    fun all issue item member => all item member issue⟩

/-! ## Names -/

theorem nameFault?_eq_none_iff {names : List String} {name : String} {position : Nat} :
    nameFault? names name position = none ↔
      name ≠ "" ∧ (names.idxOf name = position → names.count name ≤ 1) := by
  simp only [nameFault?]
  split
  · next empty => simp [empty]
  · next nonempty =>
      split
      · next shared => simp [nonempty, shared.1, shared.2]
      · next unshared =>
          simp only [ne_eq, nonempty, not_false_eq_true, true_and, true_iff]
          intro first
          by_contra more
          exact unshared ⟨first, by omega⟩

/-- Names have no fault at any position if and only if none is empty and none stands twice. -/
theorem faultless_iff (names : List String) :
    (∀ entry ∈ names.zipIdx, nameFault? names entry.1 entry.2 = none) ↔
      "" ∉ names ∧ names.Nodup := by
  simp only [nameFault?_eq_none_iff, Prod.forall, List.mem_zipIdx_iff_getElem?]
  constructor
  · intro faultless
    constructor
    · intro member
      rcases List.getElem?_of_mem member with ⟨position, found⟩
      exact (faultless "" position found).1 rfl
    · rw [List.nodup_iff_count_le_one]
      intro name
      by_cases member : name ∈ names
      · have found : names[names.idxOf name]? = some name := List.getElem?_idxOf member
        exact (faultless name _ found).2 rfl
      · simp [List.count_eq_zero_of_not_mem member]
  · rintro ⟨nonempty, distinct⟩ name position found
    refine ⟨?_, fun _ => List.nodup_iff_count_le_one.mp distinct name⟩
    rintro rfl
    exact nonempty (List.mem_of_getElem? found)

theorem harmless_nameIssues {names : List String} {name : String} {position : Nat} :
    Harmless (nameIssues names name position) ↔ nameFault? names name position = none := by
  simp only [nameIssues]
  split <;> simp_all [Issue.severity]

theorem harmless_bindingIssues {child : String} {bindings : ParameterSet} :
    Harmless (bindingIssues child bindings) ↔ "" ∉ bindings.names ∧ bindings.names.Nodup := by
  rw [← faultless_iff, bindingIssues, harmless_filterMap]
  refine forall₂_congr fun entry _ => ?_
  rcases entry with ⟨name, position⟩
  simp only
  split <;> simp_all [Issue.severity]

/-! ## One node -/

theorem harmless_edgeIssues {tree : Tree} {node : Node} :
    Harmless (edgeIssues tree node) ↔
      ∀ edge ∈ node.edges, "" ∉ edge.bindings.names ∧ edge.bindings.names.Nodup := by
  simp only [edgeIssues, harmless_flatMap, harmless_bindingIssues]

theorem harmless_decoratorIssues {name : String} {count : Nat} :
    Harmless (decoratorIssues name count) ↔ count = 1 := by
  rcases count with _ | _ | count <;> simp [decoratorIssues, Issue.severity]

theorem limitIssues_eq_nil {sets : List AccessKeySet} {limit : AccessLimit}
    (resolves : Resolves sets limit) (node : String) : limitIssues sets node limit = [] := by
  rcases resolves with ⟨keyNamed, setNamed, set, key, setFound, keyFound, sameType⟩
  simp [limitIssues, keySet?, keyNamed, setNamed, setFound, keyFound, sameType]

/-- A reference that does not resolve is one issue. -/
theorem exists_limitFault {sets : List AccessKeySet} {limit : AccessLimit}
    (unresolved : ¬Resolves sets limit) (node : String) :
    ∃ issue, limitIssues sets node limit = [issue] ∧ LimitFault sets node limit issue := by
  rw [limitIssues]
  split
  · next unnamed => exact ⟨_, rfl, .unnamedKey unnamed⟩
  · next named =>
      rw [keySet?]
      by_cases setUnnamed : limit.className = ""
      · rw [if_pos setUnnamed]
        exact ⟨_, rfl, .unknownSet named (.inl setUnnamed)⟩
      rw [if_neg setUnnamed]
      rcases setFound : AccessKeySet.named sets limit.className with _ | set
      · exact ⟨_, rfl, .unknownSet named (.inr setFound)⟩
      dsimp only
      rcases keyFound : set.find limit.accessKey with _ | key
      · exact ⟨_, rfl, .unknownKey named setUnnamed setFound keyFound⟩
      dsimp only
      split
      · next same =>
          exact absurd ⟨named, setUnnamed, set, key, setFound, keyFound, same⟩ unresolved
      · next different => exact ⟨_, rfl, .otherType named setUnnamed setFound keyFound different⟩

theorem LimitFault.severity {sets : List AccessKeySet} {name : String} {limit : AccessLimit}
    {issue : Issue} (fault : LimitFault sets name limit issue) : issue.severity = .error := by
  cases fault <;> rfl

theorem harmless_limitIssues {sets : List AccessKeySet} {name : String} {limit : AccessLimit} :
    Harmless (limitIssues sets name limit) ↔ Resolves sets limit := by
  by_cases resolves : Resolves sets limit
  · simp [limitIssues_eq_nil resolves, resolves]
  · rcases exists_limitFault resolves name with ⟨issue, only, fault⟩
    simp [only, fault.severity, resolves]

theorem harmless_weightIssues {node : Node} :
    Harmless (weightIssues node) ↔
      node.weight.isFinite = true ∧ node.weight.isPositive = true := by
  rw [← Bool.and_eq_true, weightIssues]
  split <;> simp_all [Issue.severity]

theorem harmless_kindIssues {tree : Tree} {sets : List AccessKeySet} {node : Node} :
    Harmless (kindIssues tree sets node) ↔
      (∀ content, node.kind = .decorator content → node.edges.length = 1 ∧
        ∀ limit, content.kind = .accessLimit limit → Resolves sets limit) ∧
      ∀ name, node.kind = .changeState name → tree.hasState name = true := by
  simp only [kindIssues]
  split
  · next content kind =>
      simp only [kind, harmless_append, harmless_decoratorIssues, harmless_flatMap,
        harmless_limitIssues, Decorator.accessLimit?, NodeKind.decorator.injEq, reduceCtorEq,
        false_imp_iff, implies_true, and_true, forall_eq']
      refine and_congr_right fun _ => ?_
      cases content.kind <;> simp
  · next name kind =>
      split <;> simp_all [Issue.severity]
  · next notDecorator notChangeState =>
      simp only [harmless_nil, true_iff]
      exact ⟨fun content kind => absurd kind (notDecorator content),
        fun name kind => absurd kind (notChangeState name)⟩

theorem harmless_neverFailIssues {name : String} {composite : Composite} {children : List Node} :
    Harmless (children.filterMap (neverFailIssue? name composite)) := by
  rw [harmless_filterMap]
  intro child _ issue found
  simp only [neverFailIssue?] at found
  repeat' split at found
  all_goals simp_all only [Option.some.injEq, reduceCtorEq]
  all_goals subst found; rfl

theorem harmless_unreachableIssues {name : String} {children : List Node} :
    Harmless (children.filterMap (unreachableIssue? name)) := by
  rw [harmless_filterMap]
  intro child _ issue found
  simp only [unreachableIssue?] at found
  split at found
  · simp only [Option.some.injEq] at found
    subst found
    rfl
  · simp at found

theorem harmless_compositeIssues {tree : Tree} {node : Node} {composite : Composite} :
    Harmless (compositeIssues tree node composite) ↔ node.edges ≠ [] := by
  have order (children : List Node) :
      Harmless (if composite = .random then []
        else children.filterMap (unreachableIssue? node.name)) := by
    split
    · exact harmless_nil
    · exact harmless_unreachableIssues
  simp only [compositeIssues, harmless_append, harmless_neverFailIssues, order, and_true]
  split <;> simp_all [Issue.severity]

theorem harmless_counterIssues {tree : Tree} {node : Node} {decorator : Decorator} :
    Harmless (counterIssues tree node decorator) := by
  simp only [counterIssues]
  repeat' split
  all_goals simp [Issue.severity]

theorem harmless_flowIssues {tree : Tree} {node : Node} :
    Harmless (flowIssues tree node) ↔
      ∀ content, node.kind = .composite content → node.edges ≠ [] := by
  simp only [flowIssues]
  split
  · next content kind => simp [kind, harmless_compositeIssues]
  · next content kind => simp [kind, harmless_counterIssues]
  · next notComposite _ =>
      simp only [harmless_nil, true_iff]
      exact fun content kind => absurd kind (notComposite content)

/-- What both sweeps find at one node, when its name is no fault. -/
theorem harmless_node_iff {tree : Tree} {sets : List AccessKeySet} {names : List String}
    {node : Node} {position : Nat} :
    Harmless (nodeIssues tree sets names node position) ∧ Harmless (flowIssues tree node) ↔
      nameFault? names node.name position = none ∧ NodeCompiles tree sets node := by
  simp only [nodeIssues, harmless_append, harmless_nameIssues, harmless_edgeIssues,
    harmless_kindIssues, harmless_weightIssues, harmless_flowIssues, Tree.hasState_iff]
  constructor
  · rintro ⟨⟨⟨⟨named, bindings⟩, decorator, destination⟩, weight⟩, composite⟩
    exact ⟨named, {
      weight
      decorator := fun content kind => (decorator content kind).1
      composite
      destination
      limit := fun content limit kind => (decorator content kind).2 limit
      bindings }⟩
  · rintro ⟨named, fit⟩
    exact ⟨⟨⟨⟨named, fit.bindings⟩,
      fun content kind => ⟨fit.decorator content kind, fun limit => fit.limit content limit kind⟩,
      fit.destination⟩, fit.weight⟩, fit.composite⟩

/-! ## All nodes -/

theorem harmless_defaultStateIssues {tree : Tree} :
    Harmless (defaultStateIssues tree) ↔
      tree.defaultState ≠ "" ∧ tree.hasState tree.defaultState = true := by
  simp only [defaultStateIssues]
  split <;> simp_all [Issue.severity, or_iff_not_imp_left]

theorem mem_reachedNodes_iff {tree : Tree} {node : Node} :
    node ∈ tree.reachedNodes ↔ ∃ id, tree.IsReached id ∧ tree.get? id = some node := by
  simp only [Tree.reachedNodes, List.mem_filterMap, Tree.mem_hierarchy_iff]
  refine exists_congr fun id => ?_
  constructor
  · exact fun ⟨⟨reached, _⟩, found⟩ => ⟨reached, found⟩
  · exact fun ⟨reached, found⟩ => ⟨⟨reached, node, found⟩, found⟩

/-- The hierarchy lists every node once, so its names are distinct if and only if no two of its
nodes share one. -/
theorem nodup_reachedNames_iff {tree : Tree} :
    (tree.reachedNodes.map Node.name).Nodup ↔
      ∀ id other node otherNode,
        tree.IsReached id → tree.get? id = some node →
        tree.IsReached other → tree.get? other = some otherNode →
        node.name = otherNode.name → id = other := by
  rw [List.Nodup, List.pairwise_map, Tree.reachedNodes, List.pairwise_filterMap]
  constructor
  · intro pairwise id other node otherNode reached found otherReached otherFound same
    have : Std.Symm fun first second : NodeId =>
        ∀ node, tree.get? first = some node → ∀ otherNode, tree.get? second = some otherNode →
          node.name ≠ otherNode.name :=
      ⟨fun _ _ apart _ found _ otherFound => (apart _ otherFound _ found).symm⟩
    by_contra different
    exact pairwise.forall (Tree.mem_hierarchy_iff.mpr ⟨reached, node, found⟩)
      (Tree.mem_hierarchy_iff.mpr ⟨otherReached, otherNode, otherFound⟩) different
      node found otherNode otherFound same
  · intro distinct
    apply tree.nodup_hierarchy.pairwise_of_forall_ne
    intro id member other otherMember different node found otherNode otherFound same
    exact different (distinct id other node otherNode (Tree.mem_hierarchy_iff.mp member).1 found
      (Tree.mem_hierarchy_iff.mp otherMember).1 otherFound same)

theorem forall_mem_zipIdx_fst {α : Type} (items : List α) (holds : α → Prop) :
    (∀ entry ∈ items.zipIdx, holds entry.1) ↔ ∀ item ∈ items, holds item := by
  conv_rhs => rw [← List.zipIdx_map_fst 0 items]
  exact List.forall_mem_map.symm

/-- The names of nodes have no fault at any position under the condition of `faultless_iff`. -/
theorem faultless_nodes_iff {nodes : List Node} :
    (∀ entry ∈ nodes.zipIdx, nameFault? (nodes.map Node.name) entry.1.name entry.2 = none) ↔
      "" ∉ nodes.map Node.name ∧ (nodes.map Node.name).Nodup := by
  rw [← faultless_iff, List.zipIdx_map, List.forall_mem_map]
  rfl

theorem harmless_issues_iff {tree : Tree} {sets : List AccessKeySet} :
    Harmless (tree.issues sets) ↔
      (tree.defaultState ≠ "" ∧ tree.hasState tree.defaultState = true) ∧
      ("" ∉ tree.reachedNodes.map Node.name ∧ (tree.reachedNodes.map Node.name).Nodup) ∧
      ∀ node ∈ tree.reachedNodes, NodeCompiles tree sets node := by
  simp only [Tree.issues, harmless_append, harmless_flatMap, harmless_defaultStateIssues, and_assoc]
  refine and_congr_right fun _ => and_congr_right fun _ => ?_
  rw [← and_assoc, ← faultless_nodes_iff,
    ← forall_mem_zipIdx_fst tree.reachedNodes fun node => Harmless (flowIssues tree node),
    ← forall_mem_zipIdx_fst tree.reachedNodes (NodeCompiles tree sets), ← forall₂_and,
    ← forall₂_and]
  exact forall₂_congr fun _ _ => harmless_node_iff

theorem harmless_issues_iff_treeCompiles {tree : Tree} {sets : List AccessKeySet} :
    Harmless (tree.issues sets) ↔ TreeCompiles tree sets := by
  rw [harmless_issues_iff, nodup_reachedNames_iff, Tree.hasState_iff]
  simp only [List.mem_map, mem_reachedNodes_iff]
  constructor
  · rintro ⟨⟨defaultNamed, defaultFound⟩, ⟨named, distinct⟩, nodes⟩
    exact {
      default_named := defaultNamed
      default_found := defaultFound
      nodes := fun id node reached found => nodes node ⟨id, reached, found⟩
      named := fun id node reached found empty => named ⟨node, ⟨id, reached, found⟩, empty⟩
      distinct }
  · intro fit
    refine ⟨⟨fit.default_named, fit.default_found⟩, ⟨?_, fit.distinct⟩, ?_⟩
    · rintro ⟨node, ⟨id, reached, found⟩, empty⟩
      exact fit.named id node reached found empty
    · rintro node ⟨id, reached, found⟩
      exact fit.nodes id node reached found

/-! ## The verdict -/

/-- A pass that tolerates warnings succeeds if and only if the tree is fit for code generation; a
pass that does not succeeds if and only if it finds nothing.  What is found does not depend on that
choice. -/
theorem compile_passed_iff (tree : Tree) (sets : List AccessKeySet) :
    ((tree.compile sets {}).passed = true ↔ TreeCompiles tree sets) ∧
      ((tree.compile sets { warningsAsErrors := true }).passed = true ↔
        (tree.compile sets { warningsAsErrors := true }).issues = []) ∧
      (tree.compile sets {}).issues = (tree.compile sets { warningsAsErrors := true }).issues := by
  refine ⟨?_, ?_, rfl⟩
  · rw [← harmless_issues_iff_treeCompiles]
    simp [Tree.compile, Report.ofIssues, Harmless]
  · simp [Tree.compile, Report.ofIssues, List.eq_nil_iff_forall_not_mem]

end Compiler

end BehaviorTree
