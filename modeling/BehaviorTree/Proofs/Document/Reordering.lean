import BehaviorTree.Proofs.Document.LoadedEdges
import BehaviorTree.Proofs.Document.Omissions

/-!
# The order of a hierarchy

Entries of different nodes may stand in any order, as long as no edges are in conflict.  The edges
that a document without conflicts names form no cycle together, so none of them is refused in another
order either, and the children of each node are those of its own entries.
-/

namespace BehaviorTree.Document

open BehaviorTree.Json

/-- The identity of the node of an entry. -/
def entryId? (value : Value) : Option Int :=
  (HierarchyEntry.shape.decode value).toOption.map HierarchyEntry.id

/-- The first hierarchy is the second one in another order, in which the entries of each node have
kept theirs. -/
structure Reordered (hierarchy original : List Value) : Prop where
  perm : hierarchy.Perm original
  entries : ∀ id, (hierarchy.filter fun value => entryId? value = some id) =
    original.filter fun value => entryId? value = some id

/-- Neighbours that are entries of different nodes may change places. -/
theorem Reordered.swap {first second : Value} (different : entryId? first ≠ entryId? second)
    (front back : List Value) :
    Reordered (front ++ second :: first :: back) (front ++ first :: second :: back) where
  perm := (List.Perm.swap first second back).append_left front
  entries := by
    intro id
    rw [List.filter_append, List.filter_append]
    congr 1
    by_cases own : entryId? first = some id
    · have other : entryId? second ≠ some id := fun same => different (own.trans same.symm)
      simp [own, other]
    · simp only [List.filter_cons, own, decide_false, Bool.false_eq_true, ↓reduceIte]

namespace Kept

variable {kept : Kept}

/-- Records of different identities are different nodes. -/
theorem eq_of_place? {id other : Int} {place : NodeId} (named : kept.place? id = some place)
    (otherNamed : kept.place? other = some place) : id = other := by
  rcases exists_of_place? named with ⟨node, found⟩
  rcases exists_of_place? otherNamed with ⟨otherNode, otherFound⟩
  rw [found, Option.some.injEq, Prod.mk.injEq] at otherFound
  exact otherFound.1

theorem parent_of_mem_containersIn {value : Value} {container : Container}
    (member : container ∈ kept.containersIn value) :
    ∃ id, entryId? value = some id ∧ kept.place? id = some container.parent := by
  rw [containersIn] at member
  split at member
  · cases member
  next entry decoded =>
  split at member
  · cases member
  next parent named =>
  rcases List.mem_filterMap.mp member with ⟨record, _, resolved⟩
  rcases Option.map_eq_some_iff.mp resolved with ⟨child, _, rfl⟩
  exact ⟨entry.id, by rw [entryId?, decoded]; rfl, named⟩

/-- The containers of a node come from the entries of one identity. -/
theorem filter_parent_flatMap {id : Int} {place : NodeId} (named : kept.place? id = some place)
    (hierarchy : List Value) :
    (hierarchy.flatMap kept.containersIn).filter (fun container => container.parent = place) =
      ((hierarchy.filter fun value => entryId? value = some id).flatMap kept.containersIn).filter
        fun container => container.parent = place := by
  induction hierarchy with
  | nil => rfl
  | cons value hierarchy ih =>
      rw [List.flatMap_cons, List.filter_append, ih]
      by_cases own : entryId? value = some id
      · rw [List.filter_cons_of_pos (by simpa using own), List.flatMap_cons, List.filter_append]
      · rw [List.filter_cons_of_neg (by simpa using own)]
        -- Entries of other records have other parents.
        have none : (kept.containersIn value).filter (fun container => container.parent = place) =
            [] := by
          rw [List.filter_eq_nil_iff]
          intro container member same
          rw [decide_eq_true_eq] at same
          rcases parent_of_mem_containersIn member with ⟨other, otherOwn, otherNamed⟩
          rw [same] at otherNamed
          exact own (eq_of_place? otherNamed named ▸ otherOwn)
        rw [none, List.nil_append]

theorem edgesFrom_flatMap (kept : Kept) {hierarchy original : List Value}
    (reordered : Reordered hierarchy original) (place : NodeId) :
    kept.edgesFrom (hierarchy.flatMap kept.containersIn) place =
      kept.edgesFrom (original.flatMap kept.containersIn) place := by
  rw [edgesFrom, edgesFrom]
  by_cases named : ∃ id, kept.place? id = some place
  · rcases named with ⟨id, named⟩
    rw [filter_parent_flatMap named hierarchy, filter_parent_flatMap named original,
      reordered.entries id]
  · have none : ∀ values : List Value, (values.flatMap kept.containersIn).filter
        (fun container => container.parent = place) = [] := by
      intro values
      rw [List.filter_eq_nil_iff]
      intro container member same
      rw [decide_eq_true_eq] at same
      rcases List.mem_flatMap.mp member with ⟨value, _, containerMem⟩
      rcases parent_of_mem_containersIn containerMem with ⟨id, _, known⟩
      exact named ⟨id, same ▸ known⟩
    rw [none, none]

end Kept

theorem filter_isRejection_eq_nil_iff {warnings : List LoadWarning} :
    warnings.filter LoadWarning.isRejection = [] ↔
      ∀ parent child reason, .rejectedEdge parent child reason ∉ warnings := by
  rw [List.filter_eq_nil_iff]
  constructor
  · intro none parent child reason member
    exact none _ member rfl
  · intro none warning member rejection
    cases warning with
    | rejectedEdge parent child reason => exact none parent child reason member
    | _ => cases rejection

theorem Assembly.eq_withWarnings {assembly other : Assembly}
    (builder : assembly.builder = other.builder) (nodes : assembly.nodes = other.nodes)
    (states : assembly.states = other.states) :
    assembly = other.withWarnings assembly.warnings := by
  rw [withWarnings, ← builder, ← nodes, ← states]

namespace TreeDraft

variable {draft : TreeDraft}

def withHierarchy (draft : TreeDraft) (hierarchy : List Value) : TreeDraft :=
  { draft with hierarchy }

theorem carrying_withHierarchy {hierarchy : List Value}
    (reordered : Reordered hierarchy draft.hierarchy) :
    (draft.withHierarchy hierarchy).carrying (draft.withHierarchy hierarchy).resolved =
      draft.carrying draft.resolved := by
  have edges : draft.kept.edgesFrom (hierarchy.flatMap draft.kept.containersIn) =
      draft.kept.edgesFrom draft.resolved :=
    funext fun place => draft.kept.edgesFrom_flatMap reordered place
  rw [carrying, carrying, ← edges]
  rfl

/-- Containers of which none is refused are all accepted in another order. -/
theorem selects_withHierarchy {hierarchy : List Value}
    (reordered : Reordered hierarchy draft.hierarchy)
    (selects : Selects draft.kept [] draft.resolved draft.resolved []) :
    Selects draft.kept [] (draft.withHierarchy hierarchy).resolved
      (draft.withHierarchy hierarchy).resolved [] := by
  have among : (draft.withHierarchy hierarchy).resolved ⊆ draft.resolved := by
    intro container member
    rcases List.mem_flatMap.mp member with ⟨value, valueMem, containerMem⟩
    exact List.mem_flatMap.mpr ⟨value, reordered.perm.subset valueMem, containerMem⟩
  have acyclic := (selects.isAcyclic isAcyclic_nil).of_subset (List.map_subset _ among)
  apply Selects.of_isAcyclic
  · exact fun container member => selects.suits nofun container (among member)
  · exact acyclic

/-- Assemblies that differ in their warnings alone are finished as the same tree. -/
theorem tree_loaded_of_assembled {other : TreeDraft} {warnings : List LoadWarning}
    (rootId : other.rootId = draft.rootId)
    (assembled : other.assembled = draft.assembled.withWarnings warnings) :
    other.loaded.tree = draft.loaded.tree := by
  rcases Assembly.keeps_recovered draft.rootId draft.assembled with ⟨more, _, added⟩
  have same : other.recovered = draft.recovered.withWarnings (warnings ++ more) := by
    rw [TreeDraft.recovered, assembled, rootId]
    exact added warnings
  rw [loaded_eq, same]
  rfl

theorem loaded_withHierarchy {hierarchy : List Value}
    (reordered : Reordered hierarchy draft.hierarchy)
    (clean : draft.loaded.warnings.filter LoadWarning.isRejection = []) :
    (draft.withHierarchy hierarchy).loaded.tree = draft.loaded.tree ∧
      (draft.withHierarchy hierarchy).loaded.warnings.filter LoadWarning.isRejection = [] := by
  rcases draft.selecting_assembled with ⟨accepted, refused, selects, selecting⟩
  rcases (draft.withHierarchy hierarchy).selecting_assembled with
    ⟨otherAccepted, otherRefused, otherSelects, otherSelecting⟩
  have none : refused = [] := by
    have reported := draft.rejections_recovered.trans selecting.reported
    exact List.map_eq_nil_iff.mp (reported.symm.trans clean)
  subst none
  obtain rfl : accepted = draft.resolved := selects.eq_append_of_none_refused rfl
  -- All containers can be accepted in their new order, and a selection has one outcome.
  have allAccepted : Selects draft.kept [] (draft.withHierarchy hierarchy).resolved
      (draft.withHierarchy hierarchy).resolved [] := selects_withHierarchy reordered selects
  rcases allAccepted.unique otherSelects with ⟨rfl, rfl⟩
  have builder : (draft.withHierarchy hierarchy).assembled.builder = draft.assembled.builder := by
    rw [Builder.mk.injEq, otherSelecting.tree, selecting.tree, carrying_withHierarchy reordered]
  have nodes : (draft.withHierarchy hierarchy).assembled.nodes = draft.assembled.nodes :=
    otherSelecting.nodes.trans selecting.nodes.symm
  have states : (draft.withHierarchy hierarchy).assembled.states = draft.assembled.states :=
    otherSelecting.states.trans selecting.states.symm
  refine ⟨tree_loaded_of_assembled rfl (Assembly.eq_withWarnings builder nodes states), ?_⟩
  exact (rejections_recovered _).trans otherSelecting.reported

end TreeDraft

end BehaviorTree.Document

namespace BehaviorTree.Tree

open BehaviorTree.Document BehaviorTree.Json

/-- The order of the entries of different nodes has no part in a tree whose document names no edges
in conflict. -/
theorem load_ignores_entry_order {text otherText : String} {draft : TreeDraft}
    {hierarchy : List Value} {loaded : Loaded}
    (decoded : TreeDraft.shape.read text = .ok draft)
    (reordered : Reordered hierarchy draft.hierarchy)
    (otherDecoded : TreeDraft.shape.read otherText = .ok (draft.withHierarchy hierarchy))
    (accepted : load text = .ok loaded)
    (clean : ∀ parent child reason, .rejectedEdge parent child reason ∉ loaded.warnings) :
    ∃ otherLoaded, load otherText = .ok otherLoaded ∧
      (∀ parent child reason, .rejectedEdge parent child reason ∉ otherLoaded.warnings) ∧
      otherLoaded.tree = loaded.tree := by
  obtain rfl : draft.loaded = loaded := Except.ok.inj ((load_of_read decoded).symm.trans accepted)
  rcases TreeDraft.loaded_withHierarchy reordered (filter_isRejection_eq_nil_iff.mpr clean) with
    ⟨same, otherClean⟩
  refine ⟨(draft.withHierarchy hierarchy).loaded, load_of_read otherDecoded, ?_, same⟩
  exact filter_isRejection_eq_nil_iff.mp otherClean

def entryValue (id : Int) (children : List Int) : Value :=
  .object [("Children", .list <| children.map fun child => .object [("ChildId", .ofInt child)]),
    ("Id", .ofInt id)]

/-- A document without states in which an edge leads to the root. -/
def entriesDocument (hierarchy : List Value) : Value :=
  .object [
    ("Behaviors", .list [
      .object [("BehaviorType", .text "Composite"), ("CompositeType", .text "Priority"),
        ("Id", .ofInt 0), ("Name", .text "Root")],
      .object [("BehaviorType", .text "Composite"), ("CompositeType", .text "Sequence"),
        ("Id", .ofInt 1)],
      .object [("BehaviorType", .text "Composite"), ("CompositeType", .text "Random"),
        ("Id", .ofInt 2)],
      .object [("BehaviorType", .text "Action"), ("Id", .ofInt 3)]]),
    ("Hierarchy", .list hierarchy)]

/-- The entries of a node around the one of another node. -/
def splitEntries : List Value :=
  [entryValue 1 [2, 0], entryValue 2 [3], entryValue 1 [3]]

def swappedEntries : List Value :=
  [entryValue 2 [3], entryValue 1 [2, 0], entryValue 1 [3]]

theorem load_ignores_entry_order_swapped :
    ∃ loaded otherLoaded,
      load (entriesDocument splitEntries).render = .ok loaded ∧
      load (entriesDocument swappedEntries).render = .ok otherLoaded ∧
      otherLoaded.tree = loaded.tree ∧
      otherLoaded.tree.pool.links = [(⟨1⟩, ⟨2⟩), (⟨1⟩, ⟨3⟩), (⟨2⟩, ⟨3⟩)] := by
  have computed : (TreeDraft.shape.read (entriesDocument splitEntries).render).toOption.map
      (fun draft => (draft.hierarchy, draft.loaded.warnings, draft.loaded.tree.pool.links)) =
      some (splitEntries, [.legacyMigration "Root"],
        [(⟨1⟩, ⟨2⟩), (⟨1⟩, ⟨3⟩), (⟨2⟩, ⟨3⟩)]) := by
    rw [Shape.read, tokens_render]
    decide +kernel
  have other : (TreeDraft.shape.read (entriesDocument splitEntries).render).map
        (·.withHierarchy swappedEntries) =
      TreeDraft.shape.read (entriesDocument swappedEntries).render := by
    rw [Shape.read, Shape.read, tokens_render, tokens_render]
    decide +kernel
  rcases exists_of_read computed with ⟨draft, decoded, summary⟩
  rw [Prod.mk.injEq, Prod.mk.injEq] at summary
  rcases summary with ⟨hierarchy, warnings, links⟩
  rw [decoded] at other
  have reordered : Reordered swappedEntries draft.hierarchy := by
    rw [hierarchy]
    exact .swap (by decide +kernel) [] _
  have accepted := load_of_read decoded
  rcases load_ignores_entry_order decoded reordered other.symm accepted (by simp [warnings])
    with ⟨otherLoaded, otherAccepted, _, same⟩
  exact ⟨draft.loaded, otherLoaded, accepted, otherAccepted, same, same ▸ links⟩

end BehaviorTree.Tree
