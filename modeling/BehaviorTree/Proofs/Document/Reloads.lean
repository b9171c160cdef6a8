import BehaviorTree.Proofs.Compiler.Mirrors
import BehaviorTree.Proofs.Document.RoundTrip
import BehaviorTree.Proofs.Tree.RenamedEdits

/-!
# Reloads

A tree that is saved and loaded again has other identities and nothing else that is new.  Neither the
compiler nor an editor can tell the difference: the report is the same, and further edits go the same
way.
-/

namespace BehaviorTree.Tree

open BehaviorTree.Compiler

variable {origin tree : Tree} {edits : List Edit}

theorem place_of_numbered (distinct : tree.pool.ids.Nodup) {number : Nat} {id : NodeId}
    (numbered : tree.numbered[number]? = some id) : tree.place id = ⟨number⟩ := by
  rcases List.getElem?_eq_some_iff.mp numbered with ⟨inside, rfl⟩
  rw [place, (nodup_numbered distinct).idxOf_getElem number inside]

theorem exists_reload (isOrigin : origin.IsOrigin) (bare : ∀ edit ∈ edits, edit.IsBare)
    (edited : Edit.applyAll edits origin = tree) (small : tree.pool.length ≤ 2 ^ 63)
    (readsBack : ∀ id node, tree.get? id = some node → ReadsBack node.weight) :
    tree.Rooted ∧ ∃ copy, load tree.save = .ok ⟨copy, []⟩ ∧ copy.Rooted ∧
      tree.Renames tree.place copy := by
  subst edited
  have rooted := Edit.rooted_applyAll edits bare isOrigin.rooted
  have fitted := Edit.fitted_applyAll edits bare isOrigin.rooted isOrigin.fitted
  rcases load_save_of_readsBack rooted fitted small readsBack with ⟨copy, reloaded, isCopy, _⟩
  exact ⟨rooted, copy, reloaded, rooted_load reloaded, isCopy.renames⟩

/-- A reload does not change what the compiler reports. -/
theorem compile_reload (isOrigin : origin.IsOrigin) (bare : ∀ edit ∈ edits, edit.IsBare)
    (edited : Edit.applyAll edits origin = tree) (small : tree.pool.length ≤ 2 ^ 63)
    (finite : ∀ id node, tree.get? id = some node → node.weight.isFinite = true)
    (faithful : ∀ id node, tree.get? id = some node → node.weight.isFinite = true →
      ReadsBack node.weight) :
    ∃ copy, load tree.save = .ok ⟨copy, []⟩ ∧
      ∀ sets options, copy.compile sets options = tree.compile sets options := by
  have readsBack : ∀ id node, tree.get? id = some node → ReadsBack node.weight := by
    intro id node found
    exact faithful id node found (finite id node found)
  rcases exists_reload isOrigin bare edited small readsBack with ⟨rooted, copy, reloaded, _, renames⟩
  refine ⟨copy, reloaded, ?_⟩
  intro sets options
  exact (renames.mirrors rooted).compile sets options

theorem weights_sampleRun (id : NodeId) (node : Node)
    (found : (Edit.applyAll Edit.sampleRun (new "Guard")).get? id = some node) :
    node.weight.isFinite = true ∧ ReadsBack node.weight := by
  have weights : ∀ entry ∈ (Edit.applyAll Edit.sampleRun (new "Guard")).pool,
      entry.2.weight.isFinite = true ∧ ReadsBack entry.2.weight := by
    decide +kernel
  exact weights (id, node) (Pool.mem_of_get? found)

theorem compile_reload_sampleRun :
    ∃ copy, load (Edit.applyAll Edit.sampleRun (new "Guard")).save = .ok ⟨copy, []⟩ ∧
      ∀ sets options, copy.compile sets options =
        (Edit.applyAll Edit.sampleRun (new "Guard")).compile sets options := by
  have bare : ∀ edit ∈ Edit.sampleRun, edit.IsBare := by
    simp [Edit.sampleRun, Edit.IsBare, Node.fresh]
  apply compile_reload (.fresh "Guard") bare rfl (by decide +kernel)
  · intro id node found
    exact (weights_sampleRun id node found).1
  · intro id node found _
    exact (weights_sampleRun id node found).2

/-- After a reload every further run of edits goes the same way, if each edit names the nodes by their
numbers, or by what they have been given since. -/
theorem edits_after_reload (isOrigin : origin.IsOrigin) (bare : ∀ edit ∈ edits, edit.IsBare)
    (edited : Edit.applyAll edits origin = tree) (small : tree.pool.length ≤ 2 ^ 63)
    (finite : ∀ id node, tree.get? id = some node → node.weight.isFinite = true)
    (faithful : ∀ id node, tree.get? id = some node → node.weight.isFinite = true →
      ReadsBack node.weight) :
    ∃ copy, load tree.save = .ok ⟨copy, []⟩ ∧
      (∀ number id, tree.numbered[number]? = some id → tree.place id = ⟨number⟩) ∧
      ∀ later : List Edit, (∀ edit ∈ later, edit.IsBare) →
        Edit.RunsAlike later tree.place tree copy := by
  have readsBack : ∀ id node, tree.get? id = some node → ReadsBack node.weight := by
    intro id node found
    exact faithful id node found (finite id node found)
  rcases exists_reload isOrigin bare edited small readsBack with
    ⟨rooted, copy, reloaded, copyRooted, renames⟩
  refine ⟨copy, reloaded, ?_, ?_⟩
  · intro number id
    exact place_of_numbered rooted.nodup_ids
  · intro later laterBare
    exact Edit.runsAlike later laterBare renames rooted copyRooted

/-- A state with a child of its own, and the removal of the state that has been there. -/
def laterRun : List Edit :=
  [.addNode (.fresh (.action {})),
    .addState "Combat",
    .addChild ⟨5⟩ ⟨4⟩ [],
    .insertChild ⟨5⟩ 0 ⟨2⟩ [],
    .addChild ⟨1⟩ ⟨2⟩ [],
    .removeState ⟨3⟩,
    .deleteNode ⟨4⟩]

theorem edits_after_reload_sampleRun :
    ∃ copy, load (Edit.applyAll Edit.sampleRun (new "Guard")).save = .ok ⟨copy, []⟩ ∧
      Edit.RunsAlike laterRun (Edit.applyAll Edit.sampleRun (new "Guard")).place
        (Edit.applyAll Edit.sampleRun (new "Guard")) copy := by
  have bare : ∀ edit ∈ Edit.sampleRun, edit.IsBare := by
    simp [Edit.sampleRun, Edit.IsBare, Node.fresh]
  have laterBare : ∀ edit ∈ laterRun, edit.IsBare := by
    simp [laterRun, Edit.IsBare, Node.fresh]
  have finite : ∀ id node, (Edit.applyAll Edit.sampleRun (new "Guard")).get? id = some node →
      node.weight.isFinite = true := fun id node found => (weights_sampleRun id node found).1
  rcases edits_after_reload (.fresh "Guard") bare rfl (by decide +kernel) finite
    fun id node found _ => (weights_sampleRun id node found).2 with ⟨copy, reloaded, _, alike⟩
  exact ⟨copy, reloaded, alike laterRun laterBare⟩

end BehaviorTree.Tree
