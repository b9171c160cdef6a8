import BehaviorTree.Proofs.Tree.Copies

/-!
# Documents of copies

A copy has the document of its tree, up to weights, and its document lists the nodes in the order of
the pool under their own identities.
-/

namespace BehaviorTree

open BehaviorTree.Document BehaviorTree.Number

namespace Document

/-- A record with another weight. -/
def BehaviorRecord.reweighted (weigh : Single → Single) (record : BehaviorRecord) :
    BehaviorRecord :=
  { record with weight := weigh record.weight }

def TreeDocument.reweighted (weigh : Single → Single) (document : TreeDocument) : TreeDocument :=
  { document with behaviors := document.behaviors.map (BehaviorRecord.reweighted weigh) }

end Document

namespace Tree

variable {tree : Tree} {weigh : Single → Single}

/-! ## Numbers of copies -/

theorem Rooted.number?_copy (rooted : tree.Rooted) (weigh : Single → Single) {id : NodeId}
    (pooled : id ∈ tree.pool.ids) :
    (tree.copy weigh).numbered.idxOf? (tree.place id) = tree.numbered.idxOf? id := by
  rw [rooted.numbered_copy, ids_copy]
  exact idxOf?_map fun other _ => place_injective pooled

theorem Rooted.numberedNodes_copy (rooted : tree.Rooted) (weigh : Single → Single) :
    (tree.copy weigh).numberedNodes =
      tree.numberedNodes.map fun entry => (entry.1, tree.copiedNode weigh entry.2) := by
  rw [numberedNodes, rooted.numbered_copy, ids_copy, List.zipIdx_map, List.filterMap_map,
    numberedNodes, List.map_filterMap]
  refine List.filterMap_congr fun entry member => ?_
  have pooled := mem_numbered_iff.mp (List.fst_mem_of_mem_zipIdx member)
  rcases Tree.exists_get? pooled with ⟨node, stored⟩
  simp only [Function.comp_apply, Prod.map, get?_copy_eq_some rooted.nodup_ids stored, stored,
    Option.map_some, id_eq]

theorem mem_pool_of_mem_numberedNodes {number : Nat} {node : Node}
    (member : (number, node) ∈ tree.numberedNodes) : ∃ id, tree.get? id = some node := by
  rcases List.mem_filterMap.mp member with ⟨⟨id, _⟩, _, numbered⟩
  rcases Option.map_eq_some_iff.mp numbered with ⟨other, found, same⟩
  rw [Prod.mk.injEq] at same
  exact ⟨id, same.2 ▸ found⟩

/-! ## Documents of copies -/

section Records

variable {node : Node} {number? copied? : NodeId → Option Nat}

theorem childNumbers_copiedNode
    (same : ∀ edge ∈ node.edges, copied? (tree.place edge.child) = number? edge.child) :
    (tree.copiedNode weigh node).childNumbers copied? = node.childNumbers number? := by
  have numbers : (tree.copiedNode weigh node).children.filterMap copied? =
      node.children.filterMap number? := by
    rw [children_copiedNode, List.filterMap_map]
    refine List.filterMap_congr fun child member => ?_
    rcases List.mem_map.mp member with ⟨edge, edgeMem, rfl⟩
    exact same edge edgeMem
  rw [Node.childNumbers, Node.childNumbers, numbers]

/-- Apart from its weight, a record depends on the children only through their numbers. -/
theorem nodeRecord_copiedNode
    (same : ∀ edge ∈ node.edges, copied? (tree.place edge.child) = number? edge.child)
    (number : Nat) :
    nodeRecord copied? number (tree.copiedNode weigh node) =
      (nodeRecord number? number node).reweighted weigh := by
  have children : (tree.copiedNode weigh node).childNumbers copied? = node.childNumbers number? :=
    childNumbers_copiedNode same
  rcases node with ⟨name, weight, concurrency, comment, kind, edges⟩
  simp only [nodeRecord, children]
  cases kind with
  | action | condition | changeState => rfl
  | decorator decorator => rcases decorator with ⟨_ | _, _, _, _⟩ <;> rfl
  | composite composite => cases composite <;> rfl

theorem hierarchyEntry?_copiedNode
    (same : ∀ edge ∈ node.edges, copied? (tree.place edge.child) = number? edge.child)
    (number : Nat) :
    hierarchyEntry? copied? number (tree.copiedNode weigh node) =
      hierarchyEntry? number? number node := by
  have children : (tree.copiedNode weigh node).edges.filterMap (childRecord? copied?) =
      node.edges.filterMap (childRecord? number?) := by
    rw [copiedNode, placed, List.filterMap_map]
    refine List.filterMap_congr fun edge member => ?_
    rw [Function.comp_apply, childRecord?, childRecord?, same edge member]
  have isEmpty : (tree.copiedNode weigh node).edges.isEmpty = node.edges.isEmpty := by
    simp [copiedNode, placed]
  unfold hierarchyEntry?
  rw [children, isEmpty]

end Records

/-- The document of a copy is that of the tree, with the weights of the copy. -/
theorem Rooted.toDocument_copy (rooted : tree.Rooted) (weigh : Single → Single) :
    (tree.copy weigh).toDocument = tree.toDocument.reweighted weigh := by
  have same : ∀ number node, (number, node) ∈ tree.numberedNodes → ∀ edge ∈ node.edges,
      (tree.copy weigh).numbered.idxOf? (tree.place edge.child) =
        tree.numbered.idxOf? edge.child := by
    intro number node member edge edgeMem
    rcases mem_pool_of_mem_numberedNodes member with ⟨id, found⟩
    exact rooted.number?_copy weigh
      (rooted.toCoherent.child_mem_ids ⟨node, found, List.mem_map_of_mem edgeMem⟩)
  rw [toDocument, toDocument, TreeDocument.reweighted, TreeDocument.mk.injEq]
  refine ⟨rfl, rfl, rfl, ?_, ?_⟩
  · rw [rooted.numberedNodes_copy, List.map_map, List.map_map]
    exact List.map_congr_left fun ⟨number, node⟩ member =>
      nodeRecord_copiedNode (same number node member) number
  · rw [rooted.numberedNodes_copy, List.filterMap_map]
    exact List.filterMap_congr fun ⟨number, node⟩ member =>
      hierarchyEntry?_copiedNode (same number node member) number

/-! ## Documents under other bindings -/

/-- Only the hierarchy of a document says what the bindings are. -/
theorem behaviors_matchParameters (tree : Tree) :
    tree.matchParameters.toDocument.behaviors = tree.toDocument.behaviors := by
  have numbered := (restyles_matchParameters tree).numbered_eq
  have entries : tree.matchParameters.numberedNodes = tree.numberedNodes.map fun entry =>
      (entry.1, { entry.2 with
        edges := entry.2.edges.map fun edge =>
          { edge with bindings := tree.fitBindings edge.child edge.bindings } }) := by
    rw [numberedNodes, numberedNodes, numbered, List.map_filterMap]
    apply List.filterMap_congr
    rintro ⟨id, number⟩ _
    have found := tree.pool.get?_mapEdges (fun edge =>
      { edge with bindings := tree.fitBindings edge.child edge.bindings }) id
    simp only [matchParameters, get?, found, Option.map_map]
    rfl
  simp only [toDocument, entries, numbered, List.map_map]
  apply List.map_congr_left
  intro entry _
  simp [nodeRecord, Node.childNumbers, Node.children]

/-! ## Trees under their numbers -/

/-- A tree whose identities are its numbers. -/
structure Indexed (tree : Tree) : Prop extends tree.Rooted where
  counted : tree.pool.ids = (List.range tree.created).map NodeId.mk
  numbered : tree.numbered = tree.pool.ids

/-- Such a tree with all bindings in step. -/
structure Counted (tree : Tree) : Prop extends tree.Indexed where
  fitted : tree.Fitted

theorem Rooted.indexed_copy (rooted : tree.Rooted) (weigh : Single → Single) :
    (tree.copy weigh).Indexed where
  toRooted := rooted.copy weigh
  counted := ids_copy_eq_range rooted.nodup_ids
  numbered := rooted.numbered_copy weigh

namespace Indexed

theorem length_pool (indexed : tree.Indexed) : tree.pool.length = tree.created := by
  have lengths := congrArg List.length indexed.counted
  simpa [Pool.ids] using lengths

theorem getElem?_ids (indexed : tree.Indexed) {index : Nat} {id : NodeId}
    (found : tree.pool.ids[index]? = some id) : id.index = index := by
  rw [indexed.counted, List.getElem?_map] at found
  rcases Option.map_eq_some_iff.mp found with ⟨number, inRange, rfl⟩
  exact (List.getElem?_eq_some_iff.mp inRange).2 ▸ List.getElem_range _

theorem number? (indexed : tree.Indexed) {id : NodeId} (pooled : id ∈ tree.pool.ids) :
    tree.numbered.idxOf? id = some id.index := by
  rw [indexed.numbered]
  rcases found : tree.pool.ids.idxOf? id with _ | index
  · exact absurd pooled (List.idxOf?_eq_none_iff.mp found)
  · rcases List.idxOf?_eq_some_iff.mp found with ⟨inside, same, _⟩
    rw [indexed.getElem?_ids (List.getElem?_eq_some_iff.mpr ⟨inside, same⟩)]

theorem numberedNodes (indexed : tree.Indexed) :
    tree.numberedNodes = tree.pool.map fun entry => (entry.1.index, entry.2) := by
  have entries : ∀ entry ∈ tree.pool.zipIdx,
      ((fun numbered : NodeId × Nat => (tree.get? numbered.1).map (numbered.2, ·)) ∘
        Prod.map Prod.fst id) entry = some (entry.1.1.index, entry.1.2) := by
    rintro ⟨⟨id, node⟩, index⟩ member
    have place := List.mem_zipIdx_iff_getElem?.mp member
    have found : tree.get? id = some node :=
      Pool.get?_of_mem indexed.nodup_ids (List.mem_of_getElem? place)
    have same : id.index = index := by
      refine indexed.getElem?_ids ?_
      rw [Pool.ids, List.getElem?_map, place]
      rfl
    simp only [Function.comp_apply, Prod.map, id_eq, found, Option.map_some, same]
  calc
    tree.numberedNodes =
        tree.pool.zipIdx.filterMap fun entry => some (entry.1.1.index, entry.1.2) := by
      rw [Tree.numberedNodes, indexed.numbered, Pool.ids, List.zipIdx_map, List.filterMap_map]
      exact List.filterMap_congr entries
    _ = (tree.pool.zipIdx.map Prod.fst).map fun entry => (entry.1.index, entry.2) := by
      rw [List.filterMap_eq_map', List.map_map]
      rfl
    _ = tree.pool.map fun entry => (entry.1.index, entry.2) := by rw [List.zipIdx_map_fst]

end Indexed

end Tree

/-! ## Documents under these numbers -/

namespace Document

/-- The record of an attachment in a document whose numbers are identities. -/
def attachmentRecord (edge : Edge) : ChildRecord :=
  ⟨edge.child.index, recordsOf edge.bindings⟩

/-- The entry of a node in a document whose numbers are identities. -/
def attachments? (entry : NodeId × Node) : Option HierarchyEntry :=
  if entry.2.edges.isEmpty then none
  else some ⟨entry.1.index, entry.2.edges.map attachmentRecord⟩

end Document

namespace Tree.Indexed

variable {tree : Tree}

theorem behaviors (indexed : tree.Indexed) :
    tree.toDocument.behaviors = tree.pool.map fun entry =>
      nodeRecord (fun id => tree.numbered.idxOf? id) entry.1.index entry.2 := by
  rw [toDocument]
  simp only [indexed.numberedNodes, List.map_map]
  rfl

theorem hierarchy (indexed : tree.Indexed) :
    tree.toDocument.hierarchy = tree.pool.filterMap attachments? := by
  rw [toDocument]
  simp only [indexed.numberedNodes, List.filterMap_map]
  refine List.filterMap_congr fun entry member => ?_
  have found : tree.get? entry.1 = some entry.2 := Pool.get?_of_mem indexed.nodup_ids member
  have records : entry.2.edges.filterMap (childRecord? fun id => tree.numbered.idxOf? id) =
      entry.2.edges.map attachmentRecord := by
    rw [← List.filterMap_eq_map]
    refine List.filterMap_congr fun edge edgeMem => ?_
    have pooled := indexed.toCoherent.child_mem_ids
      ⟨entry.2, found, List.mem_map_of_mem edgeMem⟩
    rw [childRecord?, indexed.number? pooled]
    rfl
  rw [Function.comp_apply, hierarchyEntry?, attachments?, records]

/-- The states have the order of the pool. -/
theorem states (indexed : tree.Indexed) :
    (tree.pool.filter fun entry => entry.2.isState).map Prod.fst = tree.states := by
  rw [← indexed.toRooted.filter_numbered, indexed.numbered, Pool.ids, List.filter_map]
  refine congrArg (List.map Prod.fst) (List.filter_congr fun entry member => ?_)
  have found : tree.get? entry.1 = some entry.2 := Pool.get?_of_mem indexed.nodup_ids member
  rw [Function.comp_apply, holdsState, found]
  rfl

end Tree.Indexed

end BehaviorTree
