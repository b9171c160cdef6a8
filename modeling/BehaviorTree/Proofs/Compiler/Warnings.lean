import BehaviorTree.Proofs.Compiler.Errors
import BehaviorTree.Proofs.Document.RoundTrip

/-!
# The warnings of a tree

A warning is about an attachment: a child at a position of its parent.  The pass finds warnings node
by node, and it counts positions among the children that it finds in the pool.  Here they are listed
by their kind, with positions among all edges of a node.  In an edited tree no edge leads out of the
pool, so both come to the same.
-/

namespace BehaviorTree

namespace Node

def composite? (node : Node) : Option Composite :=
  match node.kind with
  | .composite content => some content
  | _ => none

/-- Whether a failure below the node counts as a success. -/
def neverFails (node : Node) : Bool :=
  match node.kind with
  | .decorator content => content.neverFail
  | _ => false

def changesState (node : Node) : Bool :=
  node.destination?.isSome

end Node

/-- Whether the composite succeeds with its first child that does. -/
def Composite.succeedsOnOne : Composite → Bool
  | concurrent policy => policy.success = .succeedOnOne
  | _ => false

/-- A child at a position of its parent. -/
structure Attachment where
  parent : Node
  position : Nat
  child : Node

namespace Attachment

variable (attachment : Attachment)

/-- The parent goes on to its next child only after a failure, and the child never fails. -/
def hidesNext : Bool :=
  attachment.parent.composite?.any Composite.isPriorityLike && attachment.child.neverFails

/-- The parent succeeds with one child, and the child never fails. -/
def decidesSuccess : Bool :=
  attachment.parent.composite?.any Composite.succeedsOnOne && attachment.child.neverFails

/-- The child changes the state, and the parent would go on to other children after it. -/
def abandonsNext : Bool :=
  attachment.parent.composite?.any (· ≠ .random) && attachment.child.changesState &&
    attachment.position + 1 < attachment.parent.edges.length

/-- The parent counts accesses to its first child, which changes the state. -/
def resetsCounter : Bool :=
  attachment.parent.limit?.any (·.keyType = .counterLimit) && attachment.child.changesState &&
    attachment.position = 0

end Attachment

namespace Compiler

def warningsOf (issues : List Issue) : List Issue :=
  issues.filter (·.severity = .warning)

/-! ## Attachments -/

/-- The attachments to a node, in their order. -/
def attachmentsOf (tree : Tree) (parent : Node) : List Attachment :=
  parent.edges.zipIdx.filterMap fun (edge, position) =>
    (tree.get? edge.child).map fun child => ⟨parent, position, child⟩

def attachments (tree : Tree) : List Attachment :=
  tree.reachedNodes.flatMap (attachmentsOf tree)

/-- What is to be warned of at attachments. -/
def flowFaults (attachments : List Attachment) : List Issue :=
  (attachments.filter Attachment.hidesNext).map
      (fun attachment => .neverFailUnderPriority attachment.child.name attachment.parent.name) ++
    (attachments.filter Attachment.decidesSuccess).map
      (fun attachment =>
        .neverFailUnderSucceedOnOne attachment.child.name attachment.parent.name) ++
    (attachments.filter Attachment.abandonsNext).map
      (fun attachment =>
        .unreachableAfterChangeState attachment.parent.name attachment.child.name) ++
    (attachments.filter Attachment.resetsCounter).map
      (fun attachment =>
        .counterLimitBeforeChangeState attachment.parent.name attachment.child.name)

section Node

variable {tree : Tree} {parent : Node}

theorem of_mem_attachmentsOf {attachment : Attachment}
    (member : attachment ∈ attachmentsOf tree parent) :
    attachment.parent = parent ∧ attachment.position < parent.edges.length := by
  rcases List.mem_filterMap.mp member with ⟨⟨edge, position⟩, entry, attached⟩
  rcases Option.map_eq_some_iff.mp attached with ⟨child, _, rfl⟩
  exact ⟨rfl, List.snd_lt_of_mem_zipIdx entry⟩

def firstChildren (tree : Tree) (parent : Node) (count : Nat) : List Node :=
  (parent.children.take count).filterMap tree.get?

theorem map_child_attachmentsOf (tree : Tree) (parent : Node) (count : Nat) :
    ((attachmentsOf tree parent).filter (·.position < count)).map Attachment.child =
      firstChildren tree parent count := by
  have first := map_fst_filter_zipIdx_lt parent.edges 0 count
  rw [Nat.zero_add] at first
  rw [firstChildren, Node.children, ← List.map_take, List.filterMap_map, ← first, List.filterMap_map,
    List.filterMap_filter, attachmentsOf, List.filter_filterMap, List.map_filterMap]
  apply List.filterMap_congr
  rintro ⟨edge, position⟩ _
  simp only [Function.comp_apply]
  rcases tree.get? edge.child with _ | child
  · simp
  · by_cases early : position < count
    · simp [early]
    · simp [early, Nat.le_of_not_lt early]

/-- What is said of attachments at the first positions is said of children alone. -/
theorem map_filter_attachmentsOf {applies : Attachment → Bool} {holds : Node → Bool}
    (issue : Node → Node → Issue) (count : Nat)
    (same : ∀ position child, position < parent.edges.length →
      applies ⟨parent, position, child⟩ = (holds child && position < count)) :
    ((attachmentsOf tree parent).filter applies).map
        (fun attachment => issue attachment.parent attachment.child) =
      ((firstChildren tree parent count).filter holds).map (issue parent) := by
  have applies_eq : ∀ attachment ∈ attachmentsOf tree parent,
      applies attachment = (holds attachment.child && attachment.position < count) := by
    intro attachment member
    rcases of_mem_attachmentsOf member with ⟨rfl, inside⟩
    exact same attachment.position attachment.child inside
  rw [← map_child_attachmentsOf, List.filter_map, List.filter_filter, List.map_map,
    List.filter_congr applies_eq]
  apply List.map_congr_left
  intro attachment member
  rw [(of_mem_attachmentsOf (List.mem_of_mem_filter member)).1]
  rfl

/-! ## One node -/

theorem neverFailIssues_eq (name : String) (composite : Composite) (children : List Node) :
    children.filterMap (neverFailIssue? name composite) =
      (children.filter fun child => composite.isPriorityLike && child.neverFails).map
          (fun child => .neverFailUnderPriority child.name name) ++
        (children.filter fun child => composite.succeedsOnOne && child.neverFails).map
          (fun child => .neverFailUnderSucceedOnOne child.name name) := by
  -- A composite is of at most one of the two sorts, so one of the lists is empty.
  have one : ∀ child, neverFailIssue? name composite child =
      if composite.isPriorityLike && child.neverFails then
        some (.neverFailUnderPriority child.name name)
      else if composite.succeedsOnOne && child.neverFails then
        some (.neverFailUnderSucceedOnOne child.name name)
      else none := by
    intro child
    unfold neverFailIssue? Node.neverFails
    rcases child.kind with _ | _ | content | _ | _
    · simp
    · simp
    · cases known : content.neverFail <;> cases composite <;>
        simp [known, Composite.isPriorityLike, Composite.succeedsOnOne]
    · simp
    · simp
  rw [funext one]
  cases priority : composite.isPriorityLike with
  | false =>
      simp only [Bool.false_and, Bool.false_eq_true, if_false, filterMap_ite]
      simp
  | true =>
      have notOne : composite.succeedsOnOne = false := by
        cases composite <;> simp_all [Composite.isPriorityLike, Composite.succeedsOnOne]
      simp only [notOne, Bool.false_and, Bool.false_eq_true, if_false, filterMap_ite]
      simp

theorem unreachableIssues_eq (name : String) (children : List Node) :
    children.filterMap (unreachableIssue? name) =
      (children.filter Node.changesState).map
        (fun child => .unreachableAfterChangeState name child.name) := by
  rw [← filterMap_ite]
  apply List.filterMap_congr
  intro child _
  rw [unreachableIssue?, Node.changesState, Node.destination?]
  cases child.kind <;> rfl

theorem counterIssues_eq (tree : Tree) (node : Node) (decorator : Decorator) :
    counterIssues tree node decorator =
      ((firstChildren tree node 1).filter fun child =>
        decorator.accessLimit?.any (·.keyType = .counterLimit) && child.changesState).map
          (fun child => .counterLimitBeforeChangeState node.name child.name) := by
  unfold counterIssues firstChildren
  rcases node.children with _ | ⟨first, others⟩
  · simp
  rcases found : tree.get? first with _ | child
  · simp [found]
  rcases decorator.accessLimit? with _ | limit
  · simp [found]
  rcases kind : child.kind <;> cases type : limit.keyType <;>
    simp [found, kind, type, Node.changesState, Node.destination?]

theorem warningsOf_eq_self {issues : List Issue} (harmless : Harmless issues) :
    warningsOf issues = issues :=
  List.filter_eq_self.mpr fun issue member => decide_eq_true (harmless issue member)

theorem warningsOf_compositeIssues (tree : Tree) (node : Node) (composite : Composite) :
    warningsOf (compositeIssues tree node composite) =
      (node.children.filterMap tree.get?).filterMap (neverFailIssue? node.name composite) ++
        if composite = .random then []
        else (node.children.filterMap tree.get?).dropLast.filterMap
          (unreachableIssue? node.name) := by
  rw [compositeIssues, warningsOf, List.filter_append, List.filter_append]
  change warningsOf _ ++ warningsOf _ ++ warningsOf _ = _
  rw [warningsOf_eq_self harmless_neverFailIssues, apply_ite warningsOf (composite = .random),
    warningsOf_eq_self harmless_unreachableIssues]
  by_cases none : node.edges = [] <;> simp [none, warningsOf, Issue.severity]

/-- What is to be warned of at a node, said of its children alone. -/
theorem flowFaults_attachmentsOf (tree : Tree) (parent : Node) :
    flowFaults (attachmentsOf tree parent) =
      ((firstChildren tree parent parent.edges.length).filter fun child =>
          parent.composite?.any Composite.isPriorityLike && child.neverFails).map
            (fun child => .neverFailUnderPriority child.name parent.name) ++
        ((firstChildren tree parent parent.edges.length).filter fun child =>
          parent.composite?.any Composite.succeedsOnOne && child.neverFails).map
            (fun child => .neverFailUnderSucceedOnOne child.name parent.name) ++
        ((firstChildren tree parent (parent.edges.length - 1)).filter fun child =>
          parent.composite?.any (· ≠ .random) && child.changesState).map
            (fun child => .unreachableAfterChangeState parent.name child.name) ++
        ((firstChildren tree parent 1).filter fun child =>
          parent.limit?.any (·.keyType = .counterLimit) && child.changesState).map
            (fun child => .counterLimitBeforeChangeState parent.name child.name) := by
  refine congrArg₂ (· ++ ·) (congrArg₂ (· ++ ·) (congrArg₂ (· ++ ·) ?hides ?decides) ?abandons) ?resets
  case hides =>
    apply map_filter_attachmentsOf fun parent child =>
      .neverFailUnderPriority child.name parent.name
    intro position child inside
    simp [Attachment.hidesNext, inside]
  case decides =>
    apply map_filter_attachmentsOf fun parent child =>
      .neverFailUnderSucceedOnOne child.name parent.name
    intro position child inside
    simp [Attachment.decidesSuccess, inside]
  case abandons =>
    apply map_filter_attachmentsOf fun parent child =>
      .unreachableAfterChangeState parent.name child.name
    intro position child _
    simp [Attachment.abandonsNext, Nat.lt_sub_iff_add_lt]
  case resets =>
    apply map_filter_attachmentsOf fun parent child =>
      .counterLimitBeforeChangeState parent.name child.name
    intro position child _
    simp [Attachment.resetsCounter]

/-- What the second sweep warns of at a node whose edges all lead to the pool. -/
theorem warningsOf_flowIssues
    (closed : ∀ child ∈ parent.children, (tree.get? child).isSome = true) :
    warningsOf (flowIssues tree parent) = flowFaults (attachmentsOf tree parent) := by
  -- The pass drops the last child that it finds; no edge leads nowhere, so this is the last edge's.
  have count : parent.edges.length = parent.children.length := by
    simp [Node.children]
  have all : firstChildren tree parent parent.edges.length =
      parent.children.filterMap tree.get? := by
    rw [firstChildren, count, List.take_length]
  have allButLast : firstChildren tree parent (parent.edges.length - 1) =
      (parent.children.filterMap tree.get?).dropLast := by
    rw [firstChildren, count, ← List.dropLast_eq_take, filterMap_dropLast closed]
  rw [flowFaults_attachmentsOf, all, allButLast]
  unfold flowIssues Node.composite? Node.limit?
  rcases parent.kind with _ | _ | content | composite | _
  · simp [warningsOf]
  · simp [warningsOf]
  · rw [warningsOf_eq_self harmless_counterIssues, counterIssues_eq]
    simp
  · rw [warningsOf_compositeIssues, neverFailIssues_eq, unreachableIssues_eq]
    by_cases random : composite = .random <;> simp [random]
  · simp [warningsOf]

end Node

/-! ## All nodes -/

theorem flowFaults_flatMap_perm (tree : Tree) (nodes : List Node) :
    (nodes.flatMap fun node => flowFaults (attachmentsOf tree node)).Perm
      (flowFaults (nodes.flatMap (attachmentsOf tree))) := by
  simp only [flowFaults, List.filter_flatMap, List.map_flatMap]
  exact flatMap_append₄_perm _ _ _ _ nodes

/-- The first sweep warns of nothing. -/
theorem warningsOf_issues (tree : Tree) (sets : List AccessKeySet) :
    warningsOf (tree.issues sets) =
      tree.reachedNodes.flatMap fun node => warningsOf (flowIssues tree node) := by
  have default : warningsOf (defaultStateIssues tree) = [] := by
    rw [defaultStateIssues]
    split <;> rfl
  have sweep : ∀ entry : Node × Nat,
      warningsOf (nodeIssues tree sets (tree.reachedNodes.map Node.name) entry.1 entry.2) = [] := by
    intro entry
    apply List.filter_eq_nil_iff.mpr
    intro issue member
    simp [severity_of_mem_nodeIssues member]
  rw [Tree.issues, warningsOf, List.filter_append, List.filter_append, List.filter_flatMap,
    List.filter_flatMap]
  change warningsOf _ ++ List.flatMap (fun entry => warningsOf (nodeIssues _ _ _ _ _)) _ ++ _ = _
  rw [default, funext sweep]
  simp [warningsOf]

/-! ## The warnings of a report -/

/-- What a pass warns of, and what comes of it. -/
structure WarningsExact (tree : Tree) (options : Options) (report : Report) : Prop where
  /-- The pass looks at every reached node once. -/
  reached : tree.hierarchy.Nodup ∧
    ∀ id, id ∈ tree.hierarchy ↔ tree.IsReached id ∧ ∃ node, tree.get? id = some node
  /-- No edge of a reached node is left out. -/
  attached : ∀ node ∈ tree.reachedNodes, ∀ edge ∈ node.edges,
    ∃ child, tree.get? edge.child = some child
  exact : (warningsOf report.issues).Perm (flowFaults (attachments tree))
  passed_iff : report.passed = true ↔
    errorsOf report.issues = [] ∧ (options.warningsAsErrors = true → warningsOf report.issues = [])

/-- Errors fail every pass, and warnings fail a pass that treats them as errors. -/
theorem passed_ofIssues_iff (options : Options) (issues : List Issue) :
    (Report.ofIssues options issues).passed = true ↔
      errorsOf issues = [] ∧ (options.warningsAsErrors = true → warningsOf issues = []) := by
  simp only [Report.ofIssues, List.all_eq_true, errorsOf, warningsOf, List.filter_eq_nil_iff]
  constructor
  · intro each
    constructor
    · intro issue member
      have tolerated := each issue member
      cases severity : issue.severity <;> simp_all
    · intro asErrors issue member
      have tolerated := each issue member
      simp [asErrors] at tolerated
  · rintro ⟨noErrors, noWarnings⟩ issue member
    have noError := noErrors issue member
    cases severity : issue.severity with
    | error => simp [severity] at noError
    | warning =>
        cases strict : options.warningsAsErrors with
        | false => simp
        | true =>
            have noWarning := noWarnings strict issue member
            simp [severity] at noWarning

/-- The warnings of an edited tree are exact, and they fail no pass that tolerates them. -/
theorem compile_warnings_exact {origin tree : Tree} (isOrigin : origin.IsOrigin)
    {edits : List Edit} (bare : ∀ edit ∈ edits, edit.IsBare)
    (edited : Edit.applyAll edits origin = tree) (sets : List AccessKeySet) (options : Options) :
    WarningsExact tree options (tree.compile sets options) := by
  have coherent : tree.Coherent :=
    edited ▸ (Edit.rooted_applyAll edits bare isOrigin.rooted).toCoherent
  have attached : ∀ node ∈ tree.reachedNodes, ∀ child ∈ node.children,
      ∃ pooled, tree.get? child = some pooled := by
    intro node member child attached
    rcases mem_reachedNodes_iff.mp member with ⟨id, _, found⟩
    rcases coherent.closed id child ⟨node, found, attached⟩ with ⟨pooled, known, _⟩
    exact ⟨pooled, known⟩
  exact {
    reached := ⟨tree.nodup_hierarchy, fun _ => Tree.mem_hierarchy_iff⟩
    attached := fun node member edge edgeMem =>
      attached node member edge.child (List.mem_map_of_mem edgeMem)
    exact := by
      change (warningsOf (tree.issues sets)).Perm _
      rw [warningsOf_issues]
      refine List.Perm.trans (.of_eq ?_) (flowFaults_flatMap_perm tree tree.reachedNodes)
      apply List.flatMap_congr
      intro node member
      apply warningsOf_flowIssues
      intro child childMem
      exact Option.isSome_iff_exists.mpr (attached node member child childMem)
    passed_iff := passed_ofIssues_iff options _ }

/-- A decorator that never fails is shared by a state and a concurrent composite, and a change of
state by the same state and a decorator that counts accesses. -/
def warningRun : List Edit :=
  [.addNode (.fresh (.decorator { kind := .default, neverFail := true })),
    .addNode (.fresh (.action {})),
    .addNode (.fresh (.changeState "Default")),
    .addNode (.fresh (.decorator { kind := .accessLimit ⟨"Doors", "Front", .counterLimit⟩ })),
    .addNode (.fresh (.composite (.concurrent { success := .succeedOnOne }))),
    .addChild ⟨0⟩ ⟨1⟩ [],
    .addChild ⟨1⟩ ⟨2⟩ [],
    .addChild ⟨0⟩ ⟨3⟩ [],
    .addChild ⟨0⟩ ⟨4⟩ [],
    .addChild ⟨4⟩ ⟨3⟩ [],
    .addChild ⟨0⟩ ⟨5⟩ [],
    .addChild ⟨5⟩ ⟨1⟩ []]

def warningKeys : List AccessKeySet :=
  [⟨"Doors", [.counterLimit "Front" 1]⟩]

theorem compile_warnings_exact_warningRun :
    (warningsOf ((Edit.applyAll warningRun (Tree.new "Guard")).compile warningKeys {}).issues).Perm
        [.neverFailUnderPriority "NewDecorator" "Default",
          .neverFailUnderSucceedOnOne "NewDecorator" "NewConcurrentSelector",
          .unreachableAfterChangeState "Default" "NewChangeState",
          .counterLimitBeforeChangeState "NewAccessLimitDecorator" "NewChangeState"] ∧
      ((Edit.applyAll warningRun (Tree.new "Guard")).compile warningKeys {}).passed = true := by
  have bare : ∀ edit ∈ warningRun, edit.IsBare := by
    simp [warningRun, Edit.IsBare, Node.fresh]
  have warned := compile_warnings_exact (.fresh "Guard") bare rfl warningKeys {}
  constructor
  · refine warned.exact.trans (.of_eq ?_)
    decide +kernel
  · apply warned.passed_iff.mpr
    constructor
    · decide +kernel
    · intro strict
      cases strict

end Compiler

end BehaviorTree
