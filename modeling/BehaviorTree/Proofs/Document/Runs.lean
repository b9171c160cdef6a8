import BehaviorTree.Proofs.Document.Assembly

/-!
# Trees under edits

What holds of a tree while it is edited, depending on where it comes from.  A fresh tree has all
invariants in every state of every run.  A tree from a document may have states of one name, a
default state that does not exist, or a decorator with several children, and edits do not have to
mend that; everything else holds of it as well.
-/

namespace BehaviorTree

namespace Edit

/-- In every run of edits all invariants of a fresh tree hold, those of a loaded tree that a document
can not break hold, and no identity is issued twice. -/
theorem applyAll_invariants (edits : List Edit) (bare : ∀ edit ∈ edits, edit.IsBare) :
    (∀ name, (applyAll edits (Tree.new name)).Authored) ∧
    (∀ text loaded, Tree.load text = .ok loaded → (applyAll edits loaded.tree).Rooted) ∧
    ∀ tree : Tree, tree.Rooted →
      (applyAll edits tree).Rooted ∧
      (tree.Authored → (applyAll edits tree).Authored) ∧
      (issued edits tree).Nodup ∧
      ∀ id ∈ issued edits tree, id ∉ tree.pool.ids ∧ tree.created ≤ id.index ∧
        id.index < (applyAll edits tree).created := by
  refine ⟨?_, ?_, ?_⟩
  · intro name
    exact authored_applyAll edits bare (Tree.authored_new name)
  · intro text loaded accepted
    exact rooted_applyAll edits bare (Tree.rooted_load accepted)
  · intro tree rooted
    rcases issued_ascending edits bare rooted with ⟨ascending, between, _⟩
    refine ⟨rooted_applyAll edits bare rooted, authored_applyAll edits bare, ?_, ?_⟩
    · apply ascending.imp
      rintro id _ smaller rfl
      exact Nat.lt_irrefl _ smaller
    · intro id member
      rcases between id member with ⟨fresh, bounded⟩
      refine ⟨fun pooled => ?_, fresh, bounded⟩
      exact Nat.not_lt.mpr fresh (rooted.bounded id pooled)

/-- A state, an action and a decorator that is refused a second child. -/
def sampleRun : List Edit :=
  [.addNode (.fresh (.action {})),
    .addNode (.fresh (.decorator { kind := .default })),
    .addState "Alert",
    .addChild ⟨2⟩ ⟨1⟩ [],
    .addChild ⟨2⟩ ⟨1⟩ [],
    .addChild ⟨3⟩ ⟨2⟩ [],
    .removeState ⟨0⟩]

theorem applyAll_invariants_sampleRun : (applyAll sampleRun (Tree.new "Guard")).Authored :=
  (applyAll_invariants sampleRun (by simp [sampleRun, IsBare, Node.fresh])).1 "Guard"

end Edit

end BehaviorTree
