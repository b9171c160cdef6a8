import BehaviorTree.Proofs.Compiler.NameFaults
import BehaviorTree.Proofs.Compiler.Sweeps
import BehaviorTree.Proofs.Compiler.Verdict

/-!
# The errors of a tree

The pass finds what is wrong with each node and each edge while it goes through the hierarchy.  Here
its errors are compared with the faults of the tree, which are listed by their kind and without regard
to the pass: the names that are repeated, the decorators without a child, and so on.  Every fault is
found once, whatever else is wrong, and nothing else is found.
-/

namespace BehaviorTree

/-- The reference of an access limit. -/
def Node.limit? (node : Node) : Option AccessLimit :=
  match node.kind with
  | .decorator content => content.accessLimit?
  | _ => none

/-- The state that a node changes to. -/
def Node.destination? (node : Node) : Option String :=
  match node.kind with
  | .changeState destination => some destination
  | _ => none

namespace Compiler

def errorsOf (issues : List Issue) : List Issue :=
  issues.filter (·.severity = .error)

/-! ## Faults -/

instance (sets : List AccessKeySet) (limit : AccessLimit) : Decidable (Resolves sets limit) :=
  decidable_of_iff (limit.accessKey ≠ "" ∧ limit.className ≠ "" ∧
      (AccessKeySet.named sets limit.className).any fun set =>
        (set.find limit.accessKey).any fun key => key.type = limit.keyType) <| by
    simp only [Option.any_eq_true, decide_eq_true_eq]
    constructor
    · rintro ⟨keyNamed, setNamed, set, setFound, key, keyFound, same⟩
      exact ⟨keyNamed, setNamed, set, key, setFound, keyFound, same⟩
    · rintro ⟨keyNamed, setNamed, set, key, setFound, keyFound, same⟩
      exact ⟨keyNamed, setNamed, set, setFound, key, keyFound, same⟩

/-- The reached nodes with a reference that leads to no key of its own type. -/
def unresolvedNodes (tree : Tree) (sets : List AccessKeySet) : List Node :=
  tree.reachedNodes.filter fun node => node.limit?.any fun limit => ¬Resolves sets limit

/-- The fault of a default state that has no name or does not exist. -/
def defaultFaults (tree : Tree) : List Issue :=
  if tree.defaultState ≠ "" ∧ tree.hasState tree.defaultState then []
  else [.invalidDefaultState tree.name]

/-- The faults of the bindings of an edge. -/
def bindingFaults (tree : Tree) (edge : Edge) : List Issue :=
  let child := ((tree.get? edge.child).map Node.name).getD ""
  let names := edge.bindings.names
  (names.filter (· = "")).map (fun _ => .emptyParameterName child) ++
    (repeatedNames names).map fun name => .duplicateParameter child name (names.count name)

/-- What makes the reached nodes unfit for code generation, but for references to access keys. -/
def nodeFaults (tree : Tree) : List Issue :=
  let nodes := tree.reachedNodes
  let names := nodes.map Node.name
  (names.filter (· = "")).map (fun _ => .emptyName) ++
    (repeatedNames names).map (fun name => .duplicateName name (names.count name)) ++
    (nodes.flatMap Node.edges).flatMap (bindingFaults tree) ++
    (nodes.filter fun node => node.kind.type = .decorator ∧ node.edges.length = 0).map
      (fun node => .decoratorWithoutChild node.name) ++
    (nodes.filter fun node => node.kind.type = .decorator ∧ 1 < node.edges.length).map
      (fun node => .decoratorWithManyChildren node.name node.edges.length) ++
    (nodes.filter fun node => node.kind.type = .composite ∧ node.edges.length = 0).map
      (fun node => .compositeWithoutChildren node.name) ++
    nodes.filterMap (fun node => (node.destination?.filter fun name => !tree.hasState name).map
      (.unknownDestinationState node.name)) ++
    (nodes.filter fun node => ¬(node.weight.isFinite ∧ node.weight.isPositive)).map
      (fun node => .invalidWeight node.name node.weight)

/-! ## References -/

/-- The issues with the references of a node. -/
def referenceIssues (sets : List AccessKeySet) (node : Node) : List Issue :=
  node.limit?.toList.flatMap (limitIssues sets node.name)

theorem forall₂_flatMap {α β : Type} {holds : α → Bool} {issues : α → List β} {Of : α → β → Prop}
    (none : ∀ item, holds item = false → issues item = [])
    (one : ∀ item, holds item = true → ∃ issue, issues item = [issue] ∧ Of item issue)
    (items : List α) : List.Forall₂ Of (items.filter holds) (items.flatMap issues) := by
  induction items with
  | nil => exact .nil
  | cons item items ih =>
      rw [List.flatMap_cons]
      rcases known : holds item with _ | _
      · rw [List.filter_cons_of_neg (by simp [known]), none item known]
        exact ih
      · rcases one item known with ⟨issue, only, fault⟩
        rw [List.filter_cons_of_pos known, only]
        exact .cons fault ih

theorem forall₂_referenceIssues (tree : Tree) (sets : List AccessKeySet) :
    List.Forall₂ (fun node issue => ∃ limit, node.limit? = some limit ∧
        LimitFault sets node.name limit issue)
      (unresolvedNodes tree sets) (tree.reachedNodes.flatMap (referenceIssues sets)) := by
  refine forall₂_flatMap ?_ ?_ _
  · intro node resolved
    rw [referenceIssues]
    cases known : node.limit? with
    | none => rfl
    | some limit =>
        have resolves : Resolves sets limit := by simpa [known] using resolved
        rw [Option.toList_some, List.flatMap_singleton, limitIssues_eq_nil resolves]
  · intro node unresolved
    simp only [Option.any_eq_true, decide_eq_true_eq] at unresolved
    rcases unresolved with ⟨limit, known, fails⟩
    rcases exists_limitFault fails node.name with ⟨issue, only, fault⟩
    refine ⟨issue, ?_, limit, known, fault⟩
    rw [referenceIssues, known, Option.toList_some, List.flatMap_singleton, only]

/-! ## One node -/

section Node

variable {tree : Tree} {sets : List AccessKeySet} {node : Node} {issue : Issue}

theorem severity_of_mem_nameIssues {names : List String} {name : String} {position : Nat}
    (member : issue ∈ nameIssues names name position) : issue.severity = .error := by
  rw [nameIssues] at member
  split at member
  · cases member
  · rw [List.mem_singleton.mp member]
    rfl
  · rw [List.mem_singleton.mp member]
    rfl

theorem severity_of_mem_bindingIssues {child : String} {bindings : ParameterSet}
    (member : issue ∈ bindingIssues child bindings) : issue.severity = .error := by
  rcases List.mem_filterMap.mp member with ⟨⟨name, position⟩, _, reported⟩
  dsimp only at reported
  split at reported
  · cases reported
  · rw [← Option.some.inj reported]
    rfl
  · rw [← Option.some.inj reported]
    rfl

theorem kindIssues_eq (tree : Tree) (sets : List AccessKeySet) (node : Node) :
    kindIssues tree sets node =
      (if node.kind.type = .decorator ∧ node.edges.length = 0 then
        [.decoratorWithoutChild node.name] else []) ++
      (if node.kind.type = .decorator ∧ 1 < node.edges.length then
        [.decoratorWithManyChildren node.name node.edges.length] else []) ++
      referenceIssues sets node ++
      ((node.destination?.filter fun name => !tree.hasState name).map
        (.unknownDestinationState node.name)).toList := by
  rw [kindIssues, referenceIssues, Node.limit?, Node.destination?]
  cases node.kind with
  | action | condition | composite => simp [NodeKind.type]
  | decorator content =>
      rcases node.edges.length with _ | _ | count <;> simp [NodeKind.type, decoratorIssues]
  | changeState destination =>
      cases known : tree.hasState destination <;> simp [NodeKind.type, Option.filter, known]

theorem limitFault_of_mem {limit : AccessLimit} {name : String}
    (member : issue ∈ limitIssues sets name limit) : LimitFault sets name limit issue := by
  by_cases resolves : Resolves sets limit
  · rw [limitIssues_eq_nil resolves] at member
    cases member
  · rcases exists_limitFault resolves name with ⟨other, only, fault⟩
    rw [only, List.mem_singleton] at member
    exact member ▸ fault

theorem severity_of_mem_kindIssues (member : issue ∈ kindIssues tree sets node) :
    issue.severity = .error := by
  rw [kindIssues_eq, List.mem_append, List.mem_append, List.mem_append] at member
  rcases member with ((childless | crowded) | reference) | destination
  · split at childless
    · rw [List.mem_singleton.mp childless]
      rfl
    · cases childless
  · split at crowded
    · rw [List.mem_singleton.mp crowded]
      rfl
    · cases crowded
  · rcases List.mem_flatMap.mp reference with ⟨limit, _, unresolved⟩
    exact (limitFault_of_mem unresolved).severity
  · rcases Option.map_eq_some_iff.mp (Option.mem_toList.mp destination) with ⟨_, _, rfl⟩
    rfl

theorem severity_of_mem_nodeIssues {names : List String} {position : Nat}
    (member : issue ∈ nodeIssues tree sets names node position) : issue.severity = .error := by
  rw [nodeIssues, List.mem_append, List.mem_append, List.mem_append] at member
  rcases member with ((named | bound) | kind) | weighed
  · exact severity_of_mem_nameIssues named
  · rcases List.mem_flatMap.mp bound with ⟨edge, _, binding⟩
    exact severity_of_mem_bindingIssues binding
  · exact severity_of_mem_kindIssues kind
  · rw [weightIssues] at weighed
    split at weighed
    · cases weighed
    · rw [List.mem_singleton.mp weighed]
      rfl

theorem errorsOf_eq_nil {issues : List Issue} (harmless : Harmless issues) :
    errorsOf issues = [] := by
  rw [errorsOf, List.filter_eq_nil_iff]
  intro issue member
  simp [harmless issue member]

/-- The second sweep finds one kind of errors. -/
theorem errorsOf_flowIssues (tree : Tree) (node : Node) :
    errorsOf (flowIssues tree node) =
      if node.kind.type = .composite ∧ node.edges.length = 0 then
        [.compositeWithoutChildren node.name] else [] := by
  rw [flowIssues]
  split
  · next composite kind =>
      rw [compositeIssues, errorsOf, List.filter_append, List.filter_append]
      change errorsOf _ ++ errorsOf _ ++ errorsOf _ = _
      rw [errorsOf_eq_nil harmless_neverFailIssues, apply_ite errorsOf (composite = .random),
        errorsOf_eq_nil harmless_unreachableIssues]
      by_cases none : node.edges = [] <;> simp [none, kind, NodeKind.type, errorsOf, Issue.severity]
  · next decorator kind =>
      rw [errorsOf_eq_nil harmless_counterIssues, if_neg (by simp [kind, NodeKind.type])]
  · next notComposite _ =>
      rw [if_neg]
      · rfl
      · rintro ⟨type, _⟩
        cases kind : node.kind <;> simp_all [NodeKind.type]

theorem defaultStateIssues_eq (tree : Tree) : defaultStateIssues tree = defaultFaults tree := by
  rw [defaultStateIssues, defaultFaults]
  by_cases named : tree.defaultState = "" <;>
    cases tree.hasState tree.defaultState <;> simp [named]

theorem errorsOf_eq_self {issues : List Issue}
    (errors : ∀ issue ∈ issues, issue.severity = .error) : errorsOf issues = issues :=
  List.filter_eq_self.mpr fun issue member => decide_eq_true (errors issue member)

/-- The first sweep finds nothing but errors. -/
theorem errorsOf_issues (tree : Tree) (sets : List AccessKeySet) :
    errorsOf (tree.issues sets) =
      defaultFaults tree ++
        tree.reachedNodes.zipIdx.flatMap (fun (node, position) =>
          nodeIssues tree sets (tree.reachedNodes.map Node.name) node position) ++
        (tree.reachedNodes.filter fun node =>
          node.kind.type = .composite ∧ node.edges.length = 0).map
            (fun node => .compositeWithoutChildren node.name) := by
  have first : errorsOf (defaultFaults tree) = defaultFaults tree := by
    rw [defaultFaults]
    split <;> rfl
  have sweep : ∀ entry : Node × Nat,
      errorsOf (nodeIssues tree sets (tree.reachedNodes.map Node.name) entry.1 entry.2) = _ :=
    fun _ => errorsOf_eq_self fun _ => severity_of_mem_nodeIssues
  rw [Tree.issues, errorsOf, List.filter_append, List.filter_append, List.filter_flatMap,
    List.filter_flatMap, ← flatMap_ite, defaultStateIssues_eq]
  congr 1
  · congr 1
    exact List.flatMap_congr fun entry _ => sweep entry
  · exact List.flatMap_congr fun node _ => errorsOf_flowIssues tree node

end Node

/-! ## All nodes -/

theorem bindingIssues_perm (tree : Tree) (edge : Edge) :
    (bindingIssues (((tree.get? edge.child).map Node.name).getD "") edge.bindings).Perm
      (bindingFaults tree edge) := by
  have reports := reports_perm (fun name => NameFault.issue
    (Issue.emptyParameterName (((tree.get? edge.child).map Node.name).getD ""))
    (Issue.duplicateParameter (((tree.get? edge.child).map Node.name).getD "") name))
    edge.bindings.names
  refine List.Perm.trans (.of_eq ?_) reports
  rw [bindingIssues]
  apply List.filterMap_congr
  rintro ⟨name, position⟩ _
  dsimp only
  rcases nameFault? edge.bindings.names name position with _ | _ | _ <;> rfl

theorem edgeIssues_perm (tree : Tree) (nodes : List Node) :
    (nodes.flatMap (edgeIssues tree)).Perm
      ((nodes.flatMap Node.edges).flatMap (bindingFaults tree)) := by
  rw [List.flatMap_assoc]
  exact List.Perm.flatMap_left _ fun node _ =>
    List.Perm.flatMap_left _ fun edge _ => bindingIssues_perm tree edge

theorem nameIssues_perm (nodes : List Node) :
    (nodes.zipIdx.flatMap fun entry =>
        nameIssues (nodes.map Node.name) entry.1.name entry.2).Perm
      (((nodes.map Node.name).filter (· = "")).map (fun _ => .emptyName) ++
        (repeatedNames (nodes.map Node.name)).map fun name =>
          .duplicateName name ((nodes.map Node.name).count name)) := by
  have reports := item_reports_perm Node.name
    (fun name => NameFault.issue Issue.emptyName (Issue.duplicateName name)) nodes
  refine List.Perm.trans (.of_eq ?_) reports
  apply List.flatMap_congr
  rintro ⟨node, position⟩ _
  rw [nameIssues]
  rcases nameFault? (nodes.map Node.name) node.name position with _ | _ | _ <;> rfl

theorem kindIssues_perm (tree : Tree) (sets : List AccessKeySet) (nodes : List Node) :
    (nodes.flatMap (kindIssues tree sets)).Perm
      ((nodes.filter fun node => node.kind.type = .decorator ∧ node.edges.length = 0).map
          (fun node => .decoratorWithoutChild node.name) ++
        (nodes.filter fun node => node.kind.type = .decorator ∧ 1 < node.edges.length).map
          (fun node => .decoratorWithManyChildren node.name node.edges.length) ++
        nodes.flatMap (referenceIssues sets) ++
        nodes.filterMap fun node =>
          (node.destination?.filter fun name => !tree.hasState name).map
            (.unknownDestinationState node.name)) := by
  rw [← flatMap_ite, ← flatMap_ite, List.filterMap_eq_flatMap_toList, funext (kindIssues_eq tree sets)]
  exact flatMap_append₄_perm _ _ _ _ nodes

theorem weightIssues_eq (nodes : List Node) :
    nodes.flatMap weightIssues =
      (nodes.filter fun node => ¬(node.weight.isFinite ∧ node.weight.isPositive)).map
        (fun node => .invalidWeight node.name node.weight) := by
  rw [← flatMap_ite]
  apply List.flatMap_congr
  intro node _
  rw [weightIssues]
  cases node.weight.isFinite <;> cases node.weight.isPositive <;> rfl

/-- The errors of a tree are its faults. -/
theorem errors_perm (tree : Tree) (sets : List AccessKeySet) :
    (errorsOf (tree.issues sets)).Perm
      (defaultFaults tree ++
        (nodeFaults tree ++ tree.reachedNodes.flatMap (referenceIssues sets))) := by
  have names := nameIssues_perm tree.reachedNodes
  have edges := edgeIssues_perm tree tree.reachedNodes
  have kinds := kindIssues_perm tree sets tree.reachedNodes
  have sweep := flatMap_append₄_perm
    (fun entry : Node × Nat => nameIssues (tree.reachedNodes.map Node.name) entry.1.name entry.2)
    (fun entry => edgeIssues tree entry.1) (fun entry => kindIssues tree sets entry.1)
    (fun entry => weightIssues entry.1) tree.reachedNodes.zipIdx
  simp only [flatMap_zipIdx_fst (edgeIssues tree), flatMap_zipIdx_fst (kindIssues tree sets),
    flatMap_zipIdx_fst weightIssues, weightIssues_eq] at sweep
  -- The sweep goes node by node and the faults go kind by kind; each issue counts alike in both.
  rw [List.perm_iff_count] at names edges kinds sweep ⊢
  intro issue
  specialize names issue
  specialize edges issue
  specialize kinds issue
  specialize sweep issue
  rw [errorsOf_issues, nodeFaults]
  simp only [List.count_append] at names edges kinds sweep ⊢
  simp only [nodeIssues]
  omega

/-! ## The order of errors -/

/-- What has been found when the first sweep comes to a position. -/
def foundBefore (tree : Tree) (sets : List AccessKeySet) (position : Nat) : List Issue :=
  defaultFaults tree ++ (tree.reachedNodes.zipIdx.take position).flatMap fun (node, position) =>
    nodeIssues tree sets (tree.reachedNodes.map Node.name) node position

theorem defaultFaults_only (tree : Tree) (sets : List AccessKeySet) (name : String) :
    .invalidDefaultState name ∉
      nodeFaults tree ++ tree.reachedNodes.flatMap (referenceIssues sets) := by
  intro member
  rcases List.mem_append.mp member with fault | reference
  · simp [nodeFaults, bindingFaults] at fault
  · rcases List.mem_flatMap.mp reference with ⟨node, _, issued⟩
    rcases List.mem_flatMap.mp issued with ⟨limit, _, unresolved⟩
    cases limitFault_of_mem unresolved

theorem nameIssues_of_first {names : List String} {position : Nat} {name : String}
    (place : names[position]? = some name) (repeated : name ∈ repeatedNames names)
    (first : name ∉ names.take position) :
    nameIssues names name position = [.duplicateName name (names.count name)] := by
  rcases mem_repeatedNames_iff.mp repeated with ⟨nonempty, several⟩
  rcases List.getElem?_eq_some_iff.mp place with ⟨inside, found⟩
  have split : names.take position ++ name :: names.drop (position + 1) = names := by
    rw [← found, ← List.drop_eq_getElem_cons inside, List.take_append_drop]
  have here : names.idxOf name = position := by
    conv_lhs => rw [← split]
    rw [List.idxOf_append_of_notMem first, List.idxOf_cons_self, List.length_take]
    omega
  rw [nameIssues, nameFault?, if_neg nonempty, if_pos ⟨here, several⟩]

theorem errors_at (tree : Tree) (sets : List AccessKeySet) {position : Nat} {node : Node}
    (place : tree.reachedNodes[position]? = some node) :
    ∃ later, errorsOf (tree.issues sets) = foundBefore tree sets position ++
      nodeIssues tree sets (tree.reachedNodes.map Node.name) node position ++ later := by
  have entry : tree.reachedNodes.zipIdx[position]? = some (node, position) := by
    rw [List.getElem?_zipIdx, place, Option.map_some, Nat.zero_add]
  rcases List.getElem?_eq_some_iff.mp entry with ⟨inside, found⟩
  rw [errorsOf_issues, foundBefore]
  conv in tree.reachedNodes.zipIdx.flatMap _ =>
    rw [← List.take_append_drop position tree.reachedNodes.zipIdx,
      List.drop_eq_getElem_cons inside, found, List.flatMap_append, List.flatMap_cons]
  simp only [List.append_assoc]
  exact ⟨_, rfl⟩

/-! ## The errors of a report -/

/-- The errors that a pass finds in a tree, with their number and with their order as far as it
matters to authors. -/
structure ErrorsExact (tree : Tree) (sets : List AccessKeySet) (errors : List Issue) : Prop where
  /-- The pass looks at every reached node once. -/
  reached : tree.hierarchy.Nodup ∧
    ∀ id, id ∈ tree.hierarchy ↔ tree.IsReached id ∧ ∃ node, tree.get? id = some node
  /-- There is one issue with each unresolved reference, and each of the other faults is found once. -/
  exact : ∃ references,
    List.Forall₂ (fun node issue => ∃ limit, node.limit? = some limit ∧
      LimitFault sets node.name limit issue) (unresolvedNodes tree sets) references ∧
    errors.Perm (defaultFaults tree ++ (nodeFaults tree ++ references))
  default_first : ∃ later, errors = defaultFaults tree ++ later ∧
    ∀ name, .invalidDefaultState name ∉ later
  /-- A repeated name is reported at its first node. -/
  repeated_first : ∀ position node, tree.reachedNodes[position]? = some node →
    node.name ∈ repeatedNames (tree.reachedNodes.map Node.name) →
    (∀ other ∈ tree.reachedNodes.take position, other.name ≠ node.name) →
    ∃ later, errors = foundBefore tree sets position ++
      .duplicateName node.name ((tree.reachedNodes.map Node.name).count node.name) :: later

/-- The errors of a report are exact, whatever the tree and whatever the options. -/
theorem compile_errors_exact (tree : Tree) (sets : List AccessKeySet) (options : Options) :
    ErrorsExact tree sets (errorsOf (tree.compile sets options).issues) where
  reached := ⟨tree.nodup_hierarchy, fun _ => Tree.mem_hierarchy_iff⟩
  exact := ⟨_, forall₂_referenceIssues tree sets, errors_perm tree sets⟩
  default_first := by
    change ∃ later, errorsOf (tree.issues sets) = _ ∧ _
    have all := errors_perm tree sets
    rw [errorsOf_issues, List.append_assoc] at all ⊢
    refine ⟨_, rfl, fun name member => ?_⟩
    rw [List.perm_append_left_iff] at all
    exact defaultFaults_only tree sets name (all.subset member)
  repeated_first := by
    intro position node place repeated first
    rcases errors_at tree sets place with ⟨later, found⟩
    have named : (tree.reachedNodes.map Node.name)[position]? = some node.name := by
      rw [List.getElem?_map, place, Option.map_some]
    have early : node.name ∉ (tree.reachedNodes.map Node.name).take position := by
      rw [← List.map_take, List.mem_map]
      rintro ⟨other, member, same⟩
      exact first other member same
    rw [nodeIssues, nameIssues_of_first named repeated early] at found
    simp only [List.append_assoc, List.singleton_append] at found
    exact ⟨_, found⟩

end Compiler

end BehaviorTree
