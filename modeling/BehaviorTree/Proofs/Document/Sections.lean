import BehaviorTree.Proofs.Document.RoundTrip
import BehaviorTree.Proofs.Tree.Views

/-!
# The sections of a document

A document says what it says about children three times: in the records, as a list of numbers for the
reader; in the hierarchy, for the next load; and through the numbers themselves, since what the states
reach is numbered first.  A child without a number would be left out of both lists without notice.
There is none, because every child is pooled and every pooled node is numbered.
-/

namespace BehaviorTree

open BehaviorTree.Document

namespace Document

/-- The child records that a document has under an identity. -/
def TreeDocument.childRecords (document : TreeDocument) (id : Int) : List ChildRecord :=
  (document.hierarchy.find? (·.id = id)).elim [] HierarchyEntry.children

/-- The identities of child records, separated by commas. -/
def numberList (records : List ChildRecord) : String :=
  ",".intercalate (records.map fun record => toString record.childId)

/-- The record reads back as the node, without a warning, and lists the given child records if it is
that of a composite or of a decorator. -/
structure BehaviorRecord.Describes (record : BehaviorRecord) (node : Node)
    (records : List ChildRecord) : Prop where
  reads : (nodeOf record).run = ⟨.ok (node.withEdges []), []⟩
  children : record.children =
    if node.kind.type = .composite then some (numberList records) else none
  child : record.child =
    if node.kind.type = .decorator then some (numberList records) else none

/-- The child record names the child of the edge by its number, and has the bindings of the edge. -/
structure ChildRecord.Describes (record : ChildRecord) (tree : Tree) (edge : Edge) : Prop where
  child : ∃ number : Nat, tree.number? edge.child = some number ∧ record.childId = number
  bindings : record.parameters = recordsOf edge.bindings

/-- The sections of a document agree with a tree and with each other. -/
structure TreeDocument.Describes (document : TreeDocument) (tree : Tree) : Prop where
  length_behaviors : document.behaviors.length = tree.pool.length
  /-- The record at a position has this position as its identity. -/
  behaviors : ∀ (number : Nat) (record : BehaviorRecord),
    document.behaviors[number]? = some record →
      record.id = number ∧ ∃ id node, tree.numbered[number]? = some id ∧
        tree.get? id = some node ∧ record.Describes node (document.childRecords number)
  reached_first : ∀ id ∈ tree.hierarchy, ∀ extra ∈ tree.extras,
    ∃ number later, tree.number? id = some number ∧ tree.number? extra = some later ∧
      number < later
  hierarchy_ascending : document.hierarchy.Pairwise (·.id < ·.id)
  /-- There are entries for the nodes with children, with a record for each edge. -/
  hierarchy : ∀ entry, entry ∈ document.hierarchy ↔
    ∃ (number : Nat) (id : NodeId) (node : Node),
      entry.id = number ∧ tree.numbered[number]? = some id ∧ tree.get? id = some node ∧
      node.edges ≠ [] ∧
      List.Forall₂ (fun edge record => record.Describes tree edge) node.edges entry.children
  closed : ∀ entry ∈ document.hierarchy, ∀ child ∈ entry.children,
    ∃ record ∈ document.behaviors, record.id = child.childId

/-! ## Loops that skip nothing -/

section Loops

variable {α β : Type} {step : α → Option β} {elements : List α}

theorem getElem?_filterMap_of_isSome (each : ∀ element ∈ elements, (step element).isSome = true)
    (index : Nat) : (elements.filterMap step)[index]? = elements[index]?.bind step := by
  induction elements generalizing index with
  | nil => rfl
  | cons element elements ih =>
      rcases Option.isSome_iff_exists.mp (each element List.mem_cons_self) with ⟨result, done⟩
      rw [List.filterMap_cons_some done]
      cases index with
      | zero => exact done.symm
      | succ index => exact ih (fun other member => each other (List.mem_cons_of_mem _ member)) index

theorem filterMap_eq_iff_forall₂ {results : List β}
    (each : ∀ element ∈ elements, (step element).isSome = true) :
    elements.filterMap step = results ↔
      List.Forall₂ (fun element result => step element = some result) elements results := by
  induction elements generalizing results with
  | nil => simp [eq_comm]
  | cons element elements ih =>
      rcases Option.isSome_iff_exists.mp (each element List.mem_cons_self) with ⟨result, done⟩
      rw [List.filterMap_cons_some done]
      cases results with
      | nil => simp
      | cons first results =>
          rw [List.cons.injEq, List.forall₂_cons, done, Option.some.injEq,
            ih fun other member => each other (List.mem_cons_of_mem _ member)]

end Loops

/-! ## Lists of numbers -/

theorem children_nodeRecord (number? : NodeId → Option Nat) (number : Nat) (node : Node) :
    (nodeRecord number? number node).children =
      if node.kind.type = .composite then some (node.childNumbers number?) else none := by
  rcases node with ⟨_, _, _, _, kind, _⟩
  cases kind with
  | action | condition | changeState => rfl
  | decorator decorator => rcases decorator with ⟨_ | _, _, _, _⟩ <;> rfl
  | composite composite => cases composite <;> rfl

theorem child_nodeRecord (number? : NodeId → Option Nat) (number : Nat) (node : Node) :
    (nodeRecord number? number node).child =
      if node.kind.type = .decorator then some (node.childNumbers number?) else none := by
  rcases node with ⟨_, _, _, _, kind, _⟩
  cases kind with
  | action | condition | changeState => rfl
  | decorator decorator => rcases decorator with ⟨_ | _, _, _, _⟩ <;> rfl
  | composite composite => cases composite <;> rfl

theorem childRecord?_eq_some_iff {number? : NodeId → Option Nat} {edge : Edge}
    {record : ChildRecord} :
    childRecord? number? edge = some record ↔
      ∃ number : Nat, number? edge.child = some number ∧
        record = ⟨number, recordsOf edge.bindings⟩ := by
  rw [childRecord?]
  cases number? edge.child <;> simp [eq_comm]

/-- The list of numbers names the same children as the child records. -/
theorem childNumbers_eq_numberList (number? : NodeId → Option Nat) (node : Node) :
    node.childNumbers number? = numberList (node.edges.filterMap (childRecord? number?)) := by
  rw [Node.childNumbers, numberList, Node.children, List.filterMap_map, List.map_filterMap,
    List.map_filterMap]
  congr 1
  apply List.filterMap_congr
  intro edge _
  rw [Function.comp_apply, childRecord?]
  cases number? edge.child <;> rfl

end Document

/-! ## Sections of a written document -/

namespace Tree

variable {tree : Tree} {number : Nat} {id : NodeId} {node : Node}

theorem mem_numberedNodes_iff :
    (number, node) ∈ tree.numberedNodes ↔
      ∃ id, tree.numbered[number]? = some id ∧ tree.get? id = some node := by
  rw [numberedNodes, List.mem_filterMap]
  constructor
  · rintro ⟨⟨id, index⟩, place, numbered⟩
    rcases Option.map_eq_some_iff.mp numbered with ⟨other, found, same⟩
    rw [Prod.mk.injEq] at same
    rcases same with ⟨rfl, rfl⟩
    exact ⟨id, List.mem_zipIdx_iff_getElem?.mp place, found⟩
  · rintro ⟨id, place, found⟩
    exact ⟨(id, number), List.mem_zipIdx_iff_getElem?.mpr place, by simp only [found, Option.map_some]⟩

/-- No number is skipped. -/
theorem isSome_numberedNode :
    ∀ entry ∈ tree.numbered.zipIdx,
      ((tree.get? entry.1).map fun node => (entry.2, node)).isSome = true := by
  intro entry member
  have pooled := mem_numbered_iff.mp (List.fst_mem_of_mem_zipIdx member)
  rcases exists_get? pooled with ⟨node, found⟩
  rw [found]
  rfl

theorem getElem?_numberedNodes (tree : Tree) (number : Nat) :
    tree.numberedNodes[number]? =
      tree.numbered[number]?.bind fun id => (tree.get? id).map (number, ·) := by
  rw [numberedNodes, getElem?_filterMap_of_isSome isSome_numberedNode, List.getElem?_zipIdx]
  cases tree.numbered[number]? <;> simp

theorem length_numberedNodes (distinct : tree.pool.ids.Nodup) :
    tree.numberedNodes.length = tree.pool.length := by
  rw [numberedNodes, List.filterMap_length_eq_length.mpr isSome_numberedNode, List.length_zipIdx,
    length_numbered distinct]

theorem fst_of_getElem?_numberedNodes {entry : Nat × Node}
    (place : tree.numberedNodes[number]? = some entry) : entry.1 = number := by
  rw [getElem?_numberedNodes] at place
  rcases Option.bind_eq_some_iff.mp place with ⟨_, _, numbered⟩
  rcases Option.map_eq_some_iff.mp numbered with ⟨_, _, rfl⟩
  rfl

theorem numberedNodes_ascending (tree : Tree) :
    tree.numberedNodes.Pairwise fun entry later => entry.1 < later.1 := by
  rw [List.pairwise_iff_getElem]
  intro first second firstInside secondInside before
  rw [fst_of_getElem?_numberedNodes (List.getElem?_eq_getElem firstInside),
    fst_of_getElem?_numberedNodes (List.getElem?_eq_getElem secondInside)]
  exact before

theorem hierarchyEntry?_eq_some_iff {number? : NodeId → Option Nat} {entry : HierarchyEntry} :
    hierarchyEntry? number? number node = some entry ↔
      node.edges ≠ [] ∧ entry = ⟨number, node.edges.filterMap (childRecord? number?)⟩ := by
  unfold hierarchyEntry?
  split
  · next empty => simp [List.isEmpty_iff.mp empty]
  · next nonempty =>
      rw [List.isEmpty_iff] at nonempty
      simp [nonempty, eq_comm]

theorem mem_hierarchy_toDocument_iff {entry : HierarchyEntry} :
    entry ∈ tree.toDocument.hierarchy ↔
      ∃ (number : Nat) (id : NodeId) (node : Node),
        tree.numbered[number]? = some id ∧ tree.get? id = some node ∧ node.edges ≠ [] ∧
          entry = ⟨number, node.edges.filterMap (childRecord? tree.number?)⟩ := by
  constructor
  · intro member
    rcases List.mem_filterMap.mp member with ⟨⟨number, node⟩, numbered, written⟩
    rcases mem_numberedNodes_iff.mp numbered with ⟨id, place, found⟩
    rcases hierarchyEntry?_eq_some_iff.mp written with ⟨parent, made⟩
    exact ⟨number, id, node, place, found, parent, made⟩
  · rintro ⟨number, id, node, place, found, parent, made⟩
    exact List.mem_filterMap.mpr ⟨(number, node), mem_numberedNodes_iff.mpr ⟨id, place, found⟩,
      hierarchyEntry?_eq_some_iff.mpr ⟨parent, made⟩⟩

/-- The child records of a node are those of its edges, also where it has none. -/
theorem childRecords_toDocument (place : tree.numbered[number]? = some id)
    (found : tree.get? id = some node) :
    tree.toDocument.childRecords number =
      node.edges.filterMap (childRecord? tree.number?) := by
  rw [TreeDocument.childRecords]
  rcases search : tree.toDocument.hierarchy.find? (·.id = (number : Int)) with _ | entry <;>
    rw [search]
  · -- A node with edges would have an entry.
    have none : node.edges = [] := by
      by_contra parent
      have member := mem_hierarchy_toDocument_iff.mpr ⟨number, id, node, place, found, parent, rfl⟩
      exact List.find?_eq_none.mp search _ member (decide_eq_true rfl)
    rw [none]
    rfl
  · rcases mem_hierarchy_toDocument_iff.mp (List.mem_of_find?_eq_some search) with
      ⟨other, otherId, otherNode, otherPlace, otherFound, _, rfl⟩
    have same := List.find?_some search
    simp only [decide_eq_true_eq, Int.ofNat_inj] at same
    subst same
    rw [place, Option.some.injEq] at otherPlace
    subst otherPlace
    rw [found, Option.some.injEq] at otherFound
    rw [otherFound]
    rfl

/-- Every child of a rooted tree has a number, so no edge is left out. -/
theorem Rooted.isSome_childRecord? (rooted : tree.Rooted) (found : tree.get? id = some node) :
    ∀ edge ∈ node.edges, (childRecord? tree.number? edge).isSome = true := by
  intro edge member
  have pooled := rooted.child_mem_ids ⟨node, found, List.mem_map_of_mem member⟩
  rcases exists_number? rooted.nodup_ids pooled with ⟨childNumber, numbered, _⟩
  exact Option.isSome_iff_exists.mpr ⟨_, childRecord?_eq_some_iff.mpr ⟨_, numbered, rfl⟩⟩

theorem describes_iff {edge : Edge} {record : ChildRecord} :
    record.Describes tree edge ↔ childRecord? tree.number? edge = some record := by
  rw [childRecord?_eq_some_iff]
  constructor
  · rintro ⟨⟨number, numbered, child⟩, bindings⟩
    exact ⟨number, numbered, by rw [← child, ← bindings]⟩
  · rintro ⟨number, numbered, rfl⟩
    exact ⟨⟨number, numbered, rfl⟩, rfl⟩

theorem Rooted.reached_first (rooted : tree.Rooted) {extra : NodeId} (reached : id ∈ tree.hierarchy)
    (detached : extra ∈ tree.extras) :
    ∃ number later, tree.number? id = some number ∧ tree.number? extra = some later ∧
      number < later := by
  rcases List.getElem?_of_mem reached with ⟨number, place⟩
  rcases List.getElem?_of_mem detached with ⟨later, extraPlace⟩
  have inside := (List.getElem?_eq_some_iff.mp place).1
  refine ⟨number, tree.hierarchy.length + later, ?_, ?_, by omega⟩
  · rw [number?_eq_some_iff rooted.nodup_ids, numbered, List.getElem?_append_left inside, place]
  · rw [number?_eq_some_iff rooted.nodup_ids, numbered,
      List.getElem?_append_right (Nat.le_add_right _ _), Nat.add_sub_cancel_left, extraPlace]

theorem Rooted.describes_toDocument (rooted : tree.Rooted) : tree.toDocument.Describes tree where
  length_behaviors := by
    rw [← length_numberedNodes rooted.nodup_ids]
    exact List.length_map _
  behaviors := by
    intro number record written
    have made := (List.getElem?_map ..).symm.trans written
    rcases Option.map_eq_some_iff.mp made with ⟨⟨other, node⟩, place, rfl⟩
    obtain rfl : other = number := fst_of_getElem?_numberedNodes place
    rcases mem_numberedNodes_iff.mp (List.mem_of_getElem? place) with ⟨id, numbered, found⟩
    rcases nodeRecord_common tree.number? other node with ⟨_, _, _, _, recordId⟩
    refine ⟨recordId, id, node, numbered, found, nodeOf_nodeRecord _ _ _, ?_, ?_⟩
    · rw [childRecords_toDocument numbered found, ← childNumbers_eq_numberList]
      exact children_nodeRecord ..
    · rw [childRecords_toDocument numbered found, ← childNumbers_eq_numberList]
      exact child_nodeRecord ..
  reached_first := fun _ reached _ detached => rooted.reached_first reached detached
  hierarchy_ascending := by
    refine List.Pairwise.filterMap _ ?_ tree.numberedNodes_ascending
    rintro ⟨number, node⟩ ⟨later, laterNode⟩ before entry written laterEntry laterWritten
    rcases hierarchyEntry?_eq_some_iff.mp written with ⟨_, rfl⟩
    rcases hierarchyEntry?_eq_some_iff.mp laterWritten with ⟨_, rfl⟩
    exact Int.ofNat_lt.mpr before
  hierarchy := by
    intro entry
    simp only [describes_iff]
    rw [mem_hierarchy_toDocument_iff]
    refine exists_congr fun number => exists_congr fun id => exists_congr fun node => ?_
    constructor
    · rintro ⟨place, found, parent, rfl⟩
      refine ⟨rfl, place, found, parent, ?_⟩
      exact (filterMap_eq_iff_forall₂ (rooted.isSome_childRecord? found)).mp rfl
    · rintro ⟨same, place, found, parent, each⟩
      refine ⟨place, found, parent, ?_⟩
      rw [(filterMap_eq_iff_forall₂ (rooted.isSome_childRecord? found)).mpr each, ← same]
  closed := by
    intro entry entryMem record recordMem
    rcases mem_hierarchy_toDocument_iff.mp entryMem with ⟨_, _, node, _, found, _, rfl⟩
    rcases List.mem_filterMap.mp recordMem with ⟨edge, edgeMem, made⟩
    rcases childRecord?_eq_some_iff.mp made with ⟨number, numbered, rfl⟩
    rcases exists_get? (rooted.child_mem_ids ⟨node, found, List.mem_map_of_mem edgeMem⟩)
      with ⟨child, childFound⟩
    have place := (number?_eq_some_iff rooted.nodup_ids).mp numbered
    have written := mem_numberedNodes_iff.mpr ⟨edge.child, place, childFound⟩
    rcases nodeRecord_common tree.number? number child with ⟨_, _, _, _, recordId⟩
    exact ⟨_, List.mem_map_of_mem written, recordId⟩

/-- The sections of a written document agree with the tree and with each other, whatever has been
edited. -/
theorem toDocument_describes {origin : Tree} (isOrigin : origin.IsOrigin) {edits : List Edit}
    (bare : ∀ edit ∈ edits, edit.IsBare) (edited : Edit.applyAll edits origin = tree) :
    tree.toDocument.Describes tree := by
  subst edited
  exact (Edit.rooted_applyAll edits bare isOrigin.rooted).describes_toDocument

theorem toDocument_describes_sampleRun :
    (Edit.applyAll Edit.sampleRun (new "Guard")).toDocument.Describes
        (Edit.applyAll Edit.sampleRun (new "Guard")) ∧
      (Edit.applyAll Edit.sampleRun (new "Guard")).toDocument.hierarchy =
        [⟨0, [⟨1, []⟩]⟩, ⟨1, [⟨2, []⟩]⟩] := by
  have bare : ∀ edit ∈ Edit.sampleRun, edit.IsBare := by
    simp [Edit.sampleRun, Edit.IsBare, Node.fresh]
  exact ⟨toDocument_describes (.fresh "Guard") bare rfl, by decide +kernel⟩

end Tree

end BehaviorTree
