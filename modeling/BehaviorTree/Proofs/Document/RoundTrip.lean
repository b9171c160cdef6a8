import BehaviorTree.Proofs.Document.Drafts
import BehaviorTree.Proofs.Document.Rebuilding
import BehaviorTree.Proofs.Document.Runs
import BehaviorTree.Proofs.Document.Warnings

/-!
# Saving and loading

What is saved is loaded as a copy of the tree, as long as every weight reads back from the number in
the document.  A weight that is not finite does not: it is written as `null`, and its record is
dropped by the next load.
-/

namespace BehaviorTree

open BehaviorTree.Document BehaviorTree.Json BehaviorTree.Number

/-! ## Weights -/

/-- What a weight is read as from the number that is written for it. -/
def rereadWeight (weight : Single) : Except String Single :=
  Decoder.single (.ofBinary .singleInDocument weight)

/-- The number that is written for a weight is read as this weight. -/
def ReadsBack (weight : Single) : Prop :=
  rereadWeight weight = .ok weight

instance (weight : Single) : Decidable (ReadsBack weight) :=
  inferInstanceAs (Decidable (rereadWeight weight = .ok weight))

/-- The weight after a round trip; a weight that does not survive it stays for itself. -/
def weightAfter (weight : Single) : Single :=
  (rereadWeight weight).toOption.getD weight

theorem ReadsBack.weightAfter {weight : Single} (readsBack : ReadsBack weight) :
    weightAfter weight = weight := by
  rw [BehaviorTree.weightAfter, readsBack]
  rfl

/-- Only finite weights can be read at all. -/
theorem isFinite_of_rereadWeight {weight after : Single} (reads : rereadWeight weight = .ok after) :
    weight.isFinite = true := by
  cases weight with
  | finite negative place => rfl
  | nan => cases reads
  | infinity negative => cases reads

theorem ReadsBack.isReadable {weight : Single} (readsBack : ReadsBack weight) (level : Nat) :
    (Value.ofBinary .singleInDocument weight).isReadable level = true :=
  isReadable_of_single readsBack (isFinite_of_rereadWeight readsBack) level

/-! ## Numbers in documents -/

namespace Tree

variable {tree : Tree}

theorem lt_of_mem_numberedNodes {number : Nat} {node : Node}
    (member : (number, node) ∈ tree.numberedNodes) : number < tree.numbered.length := by
  rcases List.mem_filterMap.mp member with ⟨⟨id, index⟩, place, numbered⟩
  rcases Option.map_eq_some_iff.mp numbered with ⟨other, _, same⟩
  rw [Prod.mk.injEq] at same
  rw [← same.1]
  exact (List.getElem?_eq_some_iff.mp (List.mem_zipIdx_iff_getElem?.mp place)).1

theorem exists_mem_numberedNodes {id : NodeId} {node : Node} (found : tree.get? id = some node) :
    ∃ number, (number, node) ∈ tree.numberedNodes := by
  have member := mem_numbered_iff.mpr (Pool.mem_ids_of_get? found)
  rcases List.getElem?_of_mem member with ⟨number, place⟩
  refine ⟨number, List.mem_filterMap.mpr ⟨(id, number), ?_, ?_⟩⟩
  · exact List.mem_zipIdx_iff_getElem?.mpr place
  · simp only [found, Option.map_some]

theorem exists_of_mem_behaviors {record : BehaviorRecord}
    (member : record ∈ tree.toDocument.behaviors) :
    ∃ id node, tree.get? id = some node ∧ record.weight = node.weight ∧ 0 ≤ record.id ∧
      record.id < tree.numbered.length := by
  rcases List.mem_map.mp member with ⟨⟨number, node⟩, numbered, rfl⟩
  rcases mem_pool_of_mem_numberedNodes numbered with ⟨id, found⟩
  rcases nodeRecord_common (fun id => tree.numbered.idxOf? id) number node with
    ⟨_, weight, _, _, recordId⟩
  have inside := lt_of_mem_numberedNodes numbered
  refine ⟨id, node, found, weight, ?_, ?_⟩ <;> rw [recordId] <;> omega

theorem exists_mem_behaviors {id : NodeId} {node : Node} (found : tree.get? id = some node) :
    ∃ record ∈ tree.toDocument.behaviors, record.weight = node.weight := by
  rcases exists_mem_numberedNodes found with ⟨number, numbered⟩
  exact ⟨_, List.mem_map_of_mem numbered, (nodeRecord_common _ number node).2.1⟩

theorem bounds_of_mem_hierarchy {entry : HierarchyEntry}
    (member : entry ∈ tree.toDocument.hierarchy) :
    (0 ≤ entry.id ∧ entry.id < tree.numbered.length) ∧
      ∀ record ∈ entry.children, 0 ≤ record.childId ∧ record.childId < tree.numbered.length := by
  rcases List.mem_filterMap.mp member with ⟨⟨number, node⟩, numbered, written⟩
  have inside := lt_of_mem_numberedNodes numbered
  have made : hierarchyEntry? (fun id => tree.numbered.idxOf? id) number node = some entry :=
    written
  unfold hierarchyEntry? at made
  split at made
  · cases made
  · rw [Option.some.injEq] at made
    subst made
    refine ⟨by dsimp only; omega, ?_⟩
    intro record recordMem
    rcases List.mem_filterMap.mp recordMem with ⟨edge, _, child⟩
    rcases Option.map_eq_some_iff.mp child with ⟨childNumber, childNumbered, rfl⟩
    rcases Option.bind_eq_some_iff.mp childNumbered with ⟨index, place, same⟩
    rcases List.idxOf?_eq_some_iff.mp place with ⟨childInside, _⟩
    rw [Option.pure_def, Option.some.injEq] at same
    dsimp only
    omega

/-! ## What is read from a document -/

theorem decode_behavior (small : tree.numbered.length ≤ 2 ^ 63) {record : BehaviorRecord}
    (member : record ∈ tree.toDocument.behaviors) :
    BehaviorRecord.shape.decode record.toValue.sorted =
      (rereadWeight record.weight).map fun weight => { record with weight } := by
  rcases exists_of_mem_behaviors member with ⟨_, _, _, _, lowest, highest⟩
  exact record.decode_sorted (by omega) (by omega)

theorem decode_entry (small : tree.numbered.length ≤ 2 ^ 63) {entry : HierarchyEntry}
    (member : entry ∈ tree.toDocument.hierarchy) :
    HierarchyEntry.shape.decode entry.toValue.sorted = .ok entry := by
  rcases bounds_of_mem_hierarchy member with ⟨bounds, children⟩
  refine entry.decode_sorted (by omega) (by omega) fun record recordMem => ?_
  have childBounds := children record recordMem
  exact record.decode_sorted (by omega) (by omega)

/-- A document can be read if all weights read back. -/
theorem read_save (small : tree.numbered.length ≤ 2 ^ 63)
    (readsBack : ∀ id node, tree.get? id = some node → ReadsBack node.weight) :
    TreeDraft.shape.read tree.save = .ok tree.toDocument.rereadDraft := by
  have behaviors : (Value.list (tree.toDocument.behaviors.map
      BehaviorRecord.toValue)).isReadable 1 = true := by
    refine isReadable_list (by decide) fun record member => ?_
    rcases exists_of_mem_behaviors member with ⟨id, node, found, weight, lowest, highest⟩
    rw [record.isReadable_toValue (by omega) (by omega), weight]
    exact (readsBack id node found).isReadable 3
  have hierarchy : (Value.list (tree.toDocument.hierarchy.map
      HierarchyEntry.toValue)).isReadable 1 = true := by
    refine isReadable_list (by decide) fun entry member => ?_
    rcases bounds_of_mem_hierarchy member with ⟨bounds, children⟩
    refine entry.isReadable_toValue (by omega) (by omega) fun record recordMem => ?_
    have childBounds := children record recordMem
    omega
  rw [save, TreeDocument.read_render, if_pos ⟨behaviors, hierarchy⟩]

/-- The copy of a tree with bindings in step is a tree under its numbers. -/
theorem Rooted.counted_matched (rooted : tree.Rooted) (weigh : Single → Single) :
    (tree.copy weigh).matchParameters.Counted where
  toRooted := (restyles_matchParameters _).rooted (rooted.copy weigh)
  counted := by
    rw [(restyles_matchParameters _).ids]
    exact (rooted.indexed_copy weigh).counted
  numbered := by
    rw [(restyles_matchParameters _).ids, (restyles_matchParameters _).numbered_eq]
    exact (rooted.indexed_copy weigh).numbered
  fitted := Fitted.matchParameters _

/-- What is loaded from the document of a tree is a copy with bindings in step, if all weights can be
read. -/
theorem loaded_rereadDraft (rooted : tree.Rooted) (small : tree.numbered.length ≤ 2 ^ 63)
    (reads : ∀ record ∈ tree.toDocument.behaviors, ∃ after,
      rereadWeight record.weight = .ok after) :
    tree.toDocument.rereadDraft.loaded = ⟨(tree.copy weightAfter).matchParameters, []⟩ := by
  refine (rooted.counted_matched weightAfter).loaded (refitsPool_matchParameters _) rfl rfl rfl ?_ ?_
  · rw [behaviors_matchParameters, rooted.toDocument_copy]
    simp only [TreeDocument.rereadDraft, TreeDocument.reweighted, List.map_map]
    refine List.map_congr_left fun record member => ?_
    rcases reads record member with ⟨after, read⟩
    simp only [Function.comp_apply, decode_behavior small member, BehaviorRecord.reweighted,
      weightAfter, read]
    rfl
  · rw [← (rooted.indexed_copy weightAfter).hierarchy, rooted.toDocument_copy]
    simp only [TreeDocument.rereadDraft, TreeDocument.reweighted, List.map_map]
    exact List.map_congr_left fun entry member => decode_entry small member

/-- Where the bindings are in step already, they stay as they are. -/
theorem loaded_rereadDraft_of_fitted (rooted : tree.Rooted) (fitted : tree.Fitted)
    (small : tree.numbered.length ≤ 2 ^ 63)
    (reads : ∀ record ∈ tree.toDocument.behaviors, ∃ after,
      rereadWeight record.weight = .ok after) :
    tree.toDocument.rereadDraft.loaded = ⟨tree.copy weightAfter, []⟩ := by
  have copied : (tree.copy weightAfter).Fitted := fitted.copy rooted.toCoherent weightAfter
  rw [loaded_rereadDraft rooted small reads,
    copied.matchParameters_eq (rooted.copy weightAfter).nodup_ids]

/-! ## Round trips -/

theorem readsBack_of_mem (readsBack : ∀ id node, tree.get? id = some node → ReadsBack node.weight) :
    ∀ record ∈ tree.toDocument.behaviors, ReadsBack record.weight := by
  intro record member
  rcases exists_of_mem_behaviors member with ⟨id, node, found, weight, _⟩
  exact weight ▸ readsBack id node found

/-- Saving and loading gives a copy with bindings in step, without any warning. -/
theorem load_save_eq (rooted : tree.Rooted) (small : tree.pool.length ≤ 2 ^ 63)
    (readsBack : ∀ id node, tree.get? id = some node → ReadsBack node.weight) :
    load tree.save = .ok ⟨(tree.copy weightAfter).matchParameters, []⟩ := by
  rw [← length_numbered rooted.nodup_ids] at small
  rw [load, read_save small readsBack, Except.map, loaded_rereadDraft rooted small
    fun record member => ⟨_, readsBack_of_mem readsBack record member⟩]

/-- Where the bindings are in step already, it gives a copy of the tree as it is. -/
theorem load_save_of_readsBack (rooted : tree.Rooted) (fitted : tree.Fitted)
    (small : tree.pool.length ≤ 2 ^ 63)
    (readsBack : ∀ id node, tree.get? id = some node → ReadsBack node.weight) :
    ∃ copy, load tree.save = .ok ⟨copy, []⟩ ∧ tree.IsCopy copy ∧
      copy.toDocument = tree.toDocument := by
  refine ⟨tree.copy weightAfter, ?_, ?_, ?_⟩
  · have copied : (tree.copy weightAfter).Fitted := fitted.copy rooted.toCoherent weightAfter
    rw [load_save_eq rooted small readsBack,
      copied.matchParameters_eq (rooted.copy weightAfter).nodup_ids]
  · exact rooted.toCoherent.isCopy_copy fun id node found => (readsBack id node found).weightAfter
  · have unchanged : tree.toDocument.behaviors.map (BehaviorRecord.reweighted weightAfter) =
        tree.toDocument.behaviors := by
      refine (List.map_congr_left fun record member => ?_).trans (List.map_id _)
      rw [BehaviorRecord.reweighted, (readsBack_of_mem readsBack record member).weightAfter]
      rfl
    rw [rooted.toDocument_copy, TreeDocument.reweighted, unchanged]

theorem loaded_of_load_save {again : Loaded} (accepted : load tree.save = .ok again) :
    tree.toDocument.rereadDraft.loaded = again := by
  rcases load_eq_ok accepted with ⟨draft, read, rfl⟩
  rw [save, TreeDocument.read_render] at read
  split at read
  · rw [Except.ok.inj read]
  · cases read

/-- If no warning is given for a written document, all its weights can be read. -/
theorem reads_of_clean (small : tree.numbered.length ≤ 2 ^ 63)
    (clean : tree.toDocument.rereadDraft.loaded.isClean = true) :
    ∀ record ∈ tree.toDocument.behaviors, ∃ after, rereadWeight record.weight = .ok after := by
  intro record member
  rcases TreeDraft.decode_of_clean (List.isEmpty_iff.mp clean) _ (List.mem_map_of_mem member)
    with ⟨decoded, decode⟩
  rw [Function.comp_apply, decode_behavior small member] at decode
  rcases read : rereadWeight record.weight with reason | after
  · rw [read] at decode
    cases decode
  · exact ⟨after, rfl⟩

/-- If saving and loading gives no warning and the same document, all weights have read back. -/
theorem readsBack_of_load_save (rooted : tree.Rooted) (fitted : tree.Fitted)
    (small : tree.pool.length ≤ 2 ^ 63) {again : Loaded} (accepted : load tree.save = .ok again)
    (clean : again.isClean = true) (same : again.tree.toDocument = tree.toDocument) :
    ∀ id node, tree.get? id = some node → ReadsBack node.weight := by
  rw [← length_numbered rooted.nodup_ids] at small
  have reloaded := loaded_of_load_save accepted
  subst again
  have reads := reads_of_clean small clean
  rw [loaded_rereadDraft_of_fitted rooted fitted small reads, rooted.toDocument_copy] at same
  have behaviors := congrArg TreeDocument.behaviors same
  intro id node found
  rcases exists_mem_behaviors found with ⟨record, member, weight⟩
  rcases reads record member with ⟨after, read⟩
  have unchanged : record.reweighted weightAfter = record :=
    List.map_inj_left.mp (behaviors.trans (List.map_id _).symm) record member
  have kept : weightAfter record.weight = record.weight :=
    congrArg BehaviorRecord.weight unchanged
  rw [weightAfter, read] at kept
  rw [← weight, ReadsBack, read]
  exact congrArg Except.ok kept

/-! ### Edited trees -/

/-- A tree with which editing begins: a fresh one, or that of a document. -/
inductive IsOrigin : Tree → Prop where
  | fresh (name : String) : IsOrigin (new name)
  | loaded {text : String} {loaded : Loaded} (accepted : load text = .ok loaded) :
      IsOrigin loaded.tree

theorem IsOrigin.rooted (isOrigin : tree.IsOrigin) : tree.Rooted := by
  cases isOrigin with
  | fresh name => exact (authored_new name).toRooted
  | loaded accepted => exact rooted_load accepted

theorem IsOrigin.fitted (isOrigin : tree.IsOrigin) : tree.Fitted := by
  cases isOrigin with
  | fresh name => exact fitted_new name
  | loaded accepted => exact fitted_load accepted

/-- Whatever has been edited, a tree with finite weights is saved and loaded without a warning and
without a change, up to the identities of its nodes. -/
theorem load_save {origin : Tree} (isOrigin : origin.IsOrigin) {edits : List Edit}
    (bare : ∀ edit ∈ edits, edit.IsBare) (edited : Edit.applyAll edits origin = tree)
    (small : tree.pool.length ≤ 2 ^ 63)
    (finite : ∀ id node, tree.get? id = some node → node.weight.isFinite = true)
    (faithful : ∀ id node, tree.get? id = some node → node.weight.isFinite = true →
      ReadsBack node.weight) :
    ∃ copy, load tree.save = .ok ⟨copy, []⟩ ∧ tree.IsCopy copy ∧
      copy.toDocument = tree.toDocument := by
  subst edited
  have rooted := Edit.rooted_applyAll edits bare isOrigin.rooted
  have fitted := Edit.fitted_applyAll edits bare isOrigin.rooted isOrigin.fitted
  exact load_save_of_readsBack rooted fitted small fun id node found =>
    faithful id node found (finite id node found)

theorem load_save_sampleRun :
    ∃ copy, load (Edit.applyAll Edit.sampleRun (new "Guard")).save = .ok ⟨copy, []⟩ ∧
      (Edit.applyAll Edit.sampleRun (new "Guard")).IsCopy copy ∧
      copy.toDocument = (Edit.applyAll Edit.sampleRun (new "Guard")).toDocument := by
  have weights : ∀ entry ∈ (Edit.applyAll Edit.sampleRun (new "Guard")).pool,
      entry.2.weight.isFinite = true ∧ ReadsBack entry.2.weight := by
    decide +kernel
  have bare : ∀ edit ∈ Edit.sampleRun, edit.IsBare := by
    simp [Edit.sampleRun, Edit.IsBare, Node.fresh]
  refine load_save (.fresh "Guard") bare rfl (by decide +kernel) ?_ ?_
  · exact fun id node found => (weights _ (Pool.mem_of_get? found)).1
  · exact fun id node found _ => (weights _ (Pool.mem_of_get? found)).2

/-! ### Documents -/

/-- What has been loaded is stable under saving and loading if and only if every weight in it is
finite and reads back from the number that is written for it. -/
theorem stable_load_iff {text : String} {loaded : Loaded} (accepted : load text = .ok loaded)
    (small : loaded.tree.pool.length ≤ 2 ^ 63) :
    (∃ again, load loaded.tree.save = .ok again ∧ again.isClean = true ∧
        again.tree.toDocument = loaded.tree.toDocument) ↔
      ∀ id node, loaded.tree.get? id = some node →
        node.weight.isFinite = true ∧ ReadsBack node.weight := by
  have rooted := rooted_load accepted
  have fitted := fitted_load accepted
  constructor
  · rintro ⟨again, reloaded, clean, same⟩ id node found
    have readsBack := readsBack_of_load_save rooted fitted small reloaded clean same id node found
    exact ⟨isFinite_of_rereadWeight readsBack, readsBack⟩
  · intro weights
    rcases load_save_of_readsBack rooted fitted small
      fun id node found => (weights id node found).2 with ⟨copy, reloaded, _, same⟩
    exact ⟨⟨copy, []⟩, reloaded, rfl, same⟩

/-- A document without any fault, except that a weight in it is out of range. -/
def overweightText : String :=
  "\x7b\"DefaultState\":\"Idle\",\"Behaviors\":[" ++
    "\x7b\"BehaviorType\":\"Composite\",\"CompositeType\":\"State\",\"Id\":0," ++
      "\"Name\":\"Idle\",\"Priority\":\"HighestPriority\"\x7d," ++
    "\x7b\"BehaviorType\":\"Action\",\"Id\":1,\"Name\":\"A\",\"Weight\":1e39\x7d]," ++
    "\"Hierarchy\":[\x7b\"Id\":0,\"Children\":[\x7b\"ChildId\":1\x7d]\x7d]\x7d"

/-- The tree of this document: its only action has an infinite weight. -/
def overweight : Tree where
  name := ""
  defaultState := "Idle"
  states := [⟨0⟩]
  pool := [
    (⟨0⟩, { Node.state "Idle" with edges := [⟨⟨1⟩, []⟩] }),
    (⟨1⟩, { name := "A", weight := .infinity false, kind := .action {} })]
  created := 2

theorem stable_load_iff_overweight :
    load overweightText = .ok ⟨overweight, []⟩ ∧
      ¬∃ again, load overweight.save = .ok again ∧ again.isClean = true ∧
        again.tree.toDocument = overweight.toDocument := by
  have accepted : load overweightText = .ok ⟨overweight, []⟩ := by decide +kernel
  refine ⟨accepted, fun stable => ?_⟩
  have weights := (stable_load_iff accepted (by decide)).mp stable ⟨1⟩ _ rfl
  cases weights.1

end Tree

end BehaviorTree
