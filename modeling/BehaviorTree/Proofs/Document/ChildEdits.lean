import BehaviorTree.Proofs.Document.EditedTrees
import BehaviorTree.Proofs.Tree.Cycles

/-!
# Edits of children

Attaching a child and replacing one are refused for what they would do to the graph, but what is
tested is the graph as it was.  Here the tests are compared with the graph that an edit leaves behind:
an edit of children is accepted exactly if its nodes are fit for it and that graph has no cycle.
-/

namespace BehaviorTree

open Relation

namespace Tree

variable {tree after : Tree} {parentId childId : NodeId} {parent child : Node}

/-- When an editor may attach a child at a position: the nodes are fit for it, and the links of the
tree with the new one form no cycle. -/
structure MayAttach (tree : Tree) (parentId : NodeId) (parent : Node) (childId : NodeId)
    (child : Node) (position : Nat) : Prop where
  parent_found : tree.get? parentId = some parent
  child_found : tree.get? childId = some child
  inner : parent.isLeaf = false
  ordinary : child.isState = false
  vacant : parent.kind.isDecorator = true → parent.edges = []
  in_range : position ≤ parent.edges.length
  acyclic : IsAcyclic (tree.pool.links ++ [(parentId, childId)])

/-- When an editor may replace the first edge to a child: the new child is fit for it, and the links
of the tree with this one redirected form no cycle. -/
structure MayReplace (tree : Tree) (parentId : NodeId) (parent : Node) (index : Nat)
    (oldId newId : NodeId) (new : Node) : Prop where
  parent_found : tree.get? parentId = some parent
  position : parent.indexOf? oldId = some index
  new_found : tree.get? newId = some new
  ordinary : new.isState = false
  acyclic : IsAcyclic (tree.pool.links.erase (parentId, oldId) ++ [(parentId, newId)])

/-- The tree with a child at a position. -/
def withChild (tree : Tree) (parentId : NodeId) (position : Nat) (childId : NodeId) (child : Node)
    (bindings : ParameterSet) : Tree :=
  tree.withEdges parentId fun edges => edges.insertIdx position ⟨childId, child.fit bindings⟩

/-- The tree with another child of the edge at a position, and with its bindings in step. -/
def withReplacement (tree : Tree) (parentId : NodeId) (index : Nat) (newId : NodeId) (new : Node) :
    Tree :=
  tree.withEdges parentId fun edges =>
    edges.modify index fun edge => ⟨newId, new.fit edge.bindings⟩

/-! ## Attaching -/

theorem mayAttach_iff_attachable (distinct : tree.pool.ids.Nodup)
    (acyclic : IsAcyclic tree.pool.links) {position : Nat} :
    tree.MayAttach parentId parent childId child position ↔
      tree.Attachable true parentId parent childId child position := by
  have cycles : IsAcyclic (tree.pool.links ++ [(parentId, childId)]) ↔
      parentId ≠ childId ∧ ¬TransGen tree.IsChild childId parentId := by
    rw [isAcyclic_append_iff acyclic, ← isChild_eq_leads distinct, not_reflTransGen_iff]
  constructor
  · intro may
    rcases cycles.mp may.acyclic with ⟨notSame, notAbove⟩
    exact {
      parent_found := may.parent_found
      child_found := may.child_found
      not_leaf := may.inner
      not_state := may.ordinary
      vacant := fun _ => may.vacant
      in_range := may.in_range
      not_same := notSame
      not_above := notAbove }
  · intro attachable
    exact {
      parent_found := attachable.parent_found
      child_found := attachable.child_found
      inner := attachable.not_leaf
      ordinary := attachable.not_state
      vacant := attachable.vacant rfl
      in_range := attachable.in_range
      acyclic := cycles.mpr ⟨attachable.not_same, attachable.not_above⟩ }

theorem attached_iff_mayAttach (distinct : tree.pool.ids.Nodup)
    (acyclic : IsAcyclic tree.pool.links) {index : Option Nat} {bindings : ParameterSet} :
    tree.attached true parentId index childId bindings = .ok after ↔
      ∃ parent child, tree.MayAttach parentId parent childId child
          (index.getD parent.edges.length) ∧
        after = tree.withChild parentId (index.getD parent.edges.length) childId child bindings := by
  rw [attached_eq_ok_iff]
  constructor
  · rintro ⟨parent, child, position, attachable, rfl, rfl⟩
    refine ⟨parent, child, (mayAttach_iff_attachable distinct acyclic).mpr attachable, ?_⟩
    rw [fitBindings_eq_fit attachable.child_found]
    rfl
  · rintro ⟨parent, child, may, rfl⟩
    have attachable := (mayAttach_iff_attachable distinct acyclic).mp may
    refine ⟨parent, child, _, attachable, rfl, ?_⟩
    rw [fitBindings_eq_fit attachable.child_found]
    rfl

theorem MayAttach.links {position : Nat} (distinct : tree.pool.ids.Nodup)
    (may : tree.MayAttach parentId parent childId child position) (bindings : ParameterSet) :
    (tree.withChild parentId position childId child bindings).pool.links.Perm
      (tree.pool.links ++ [(parentId, childId)]) :=
  Pool.links_insertEdge distinct may.parent_found may.in_range

/-! ## Replacing -/

theorem mayReplace_iff (distinct : tree.pool.ids.Nodup) (acyclic : IsAcyclic tree.pool.links)
    {index : Nat} {oldId newId : NodeId} {new : Node} :
    tree.MayReplace parentId parent index oldId newId new ↔
      tree.get? parentId = some parent ∧ parent.indexOf? oldId = some index ∧
        tree.get? newId = some new ∧ new.isState = false ∧
        tree.wouldCycle parentId newId = false := by
  have cycles : IsAcyclic (tree.pool.links.erase (parentId, oldId) ++ [(parentId, newId)]) ↔
      tree.wouldCycle parentId newId = false := by
    rw [isAcyclic_redirect_iff acyclic, ← isChild_eq_leads distinct, not_reflTransGen_iff,
      wouldCycle_eq_false_iff]
  constructor
  · intro may
    exact ⟨may.parent_found, may.position, may.new_found, may.ordinary, cycles.mp may.acyclic⟩
  · rintro ⟨parentFound, position, newFound, ordinary, noCycle⟩
    exact ⟨parentFound, position, newFound, ordinary, cycles.mpr noCycle⟩

theorem MayReplace.links {index : Nat} {oldId newId : NodeId} {new : Node}
    (distinct : tree.pool.ids.Nodup)
    (may : tree.MayReplace parentId parent index oldId newId new) :
    (tree.withReplacement parentId index newId new).pool.links.Perm
      (tree.pool.links.erase (parentId, oldId) ++ [(parentId, newId)]) := by
  have position := may.position
  rw [Node.indexOf?, List.findIdx?_eq_some_iff_getElem] at position
  rcases position with ⟨inRange, isOld, _⟩
  have edgeFound : parent.edges[index]? = some parent.edges[index] := List.getElem?_eq_getElem inRange
  rw [decide_eq_true_eq] at isOld
  rw [← isOld]
  exact Pool.links_replaceEdge distinct may.parent_found edgeFound

end Tree

/-! ## Answers -/

namespace Edit

variable {tree after : Tree} {answer : Answer} {parentId childId : NodeId}

theorem apply_attach_iff {edit : Edit} {index : Option Nat} {bindings : ParameterSet}
    (step : edit.step = do
      Editing.attach parentId index childId bindings
      return .done) :
    edit.apply tree = (.ok answer, after) ↔
      answer = .done ∧ tree.attached true parentId index childId bindings = .ok after := by
  rw [apply, step, Editing.run_bind, Editing.run_attach]
  rcases tree.attached true parentId index childId bindings with refusal | attached
  · simp
  · simp [Editing.run_pure, eq_comm]

theorem apply_replaceChild_iff {oldId newId : NodeId} :
    (replaceChild parentId oldId newId).apply tree = (.ok answer, after) ↔
      answer = .done ∧ ∃ parent index new, tree.get? parentId = some parent ∧
        parent.indexOf? oldId = some index ∧ tree.get? newId = some new ∧ new.isState = false ∧
        tree.wouldCycle parentId newId = false ∧
        after = tree.withReplacement parentId index newId new := by
  rw [apply_eq_ok_iff]
  constructor
  · intro accepted
    cases accepted with
    | replaceChild found position childFound ordinary notSame notAbove =>
        refine ⟨rfl, _, _, _, found, position, childFound, ordinary,
          Tree.wouldCycle_eq_false_iff.mpr ⟨notSame, notAbove⟩, ?_⟩
        simp only [Tree.withReplacement, Tree.fitBindings_eq_fit childFound]
  · rintro ⟨rfl, parent, index, new, found, position, newFound, ordinary, noCycle, rfl⟩
    rcases Tree.wouldCycle_eq_false_iff.mp noCycle with ⟨notSame, notAbove⟩
    have accepted := Accepted.replaceChild found position newFound ordinary notSame notAbove
    simpa only [Tree.withReplacement, Tree.fitBindings_eq_fit newFound] using accepted

/-- Edits of children are exact: they are accepted if and only if the nodes are fit for it and the
links that they leave behind form no cycle.  They leave behind the tree with the child at the position
that was asked for, and with its bindings in step. -/
theorem child_edits_exact {origin : Tree} (isOrigin : origin.IsOrigin) {edits : List Edit}
    (referring : AllReferBack edits origin) (edited : applyAll edits origin = tree)
    (parentId childId : NodeId) (bindings : ParameterSet) (answer : Answer) (after : Tree) :
    ((addChild parentId childId bindings).apply tree = (.ok answer, after) ↔
        answer = .done ∧ ∃ parent child,
          tree.MayAttach parentId parent childId child parent.edges.length ∧
          after = tree.withChild parentId parent.edges.length childId child bindings ∧
          after.pool.links.Perm (tree.pool.links ++ [(parentId, childId)])) ∧
      (∀ index, (insertChild parentId index childId bindings).apply tree = (.ok answer, after) ↔
        answer = .done ∧ ∃ parent child,
          tree.MayAttach parentId parent childId child index ∧
          after = tree.withChild parentId index childId child bindings ∧
          after.pool.links.Perm (tree.pool.links ++ [(parentId, childId)])) ∧
      ∀ oldId, (replaceChild parentId oldId childId).apply tree = (.ok answer, after) ↔
        answer = .done ∧ ∃ parent index child,
          tree.MayReplace parentId parent index oldId childId child ∧
          after = tree.withReplacement parentId index childId child ∧
          after.pool.links.Perm
            (tree.pool.links.erase (parentId, oldId) ++ [(parentId, childId)]) := by
  have distinct := (orderly_applyAll edits isOrigin.rooted.orderly).nodup_ids
  have acyclic := isAcyclic_applyAll edits isOrigin.rooted referring
  rw [edited] at distinct acyclic
  have attached : ∀ index, tree.attached true parentId index childId bindings = .ok after ↔
      ∃ parent child, tree.MayAttach parentId parent childId child
          (index.getD parent.edges.length) ∧
        after = tree.withChild parentId (index.getD parent.edges.length) childId child bindings ∧
        after.pool.links.Perm (tree.pool.links ++ [(parentId, childId)]) := by
    intro index
    rw [Tree.attached_iff_mayAttach distinct acyclic]
    refine exists_congr fun parent => exists_congr fun child => and_congr_right fun may => ?_
    exact (and_iff_left_of_imp fun same => same ▸ may.links distinct bindings).symm
  refine ⟨?_, fun index => ?_, fun oldId => ?_⟩
  · rw [apply_attach_iff rfl, attached]
    rfl
  · rw [apply_attach_iff rfl, attached]
    rfl
  · rw [apply_replaceChild_iff]
    refine and_congr_right fun _ => ?_
    refine exists_congr fun parent => exists_congr fun index => exists_congr fun child => ?_
    constructor
    · rintro ⟨parentFound, position, childFound, ordinary, noCycle, rfl⟩
      have may := (Tree.mayReplace_iff distinct acyclic).mpr
        ⟨parentFound, position, childFound, ordinary, noCycle⟩
      exact ⟨may, rfl, may.links distinct⟩
    · rintro ⟨may, rfl, _⟩
      rcases (Tree.mayReplace_iff distinct acyclic).mp may
        with ⟨parentFound, position, childFound, ordinary, noCycle⟩
      exact ⟨parentFound, position, childFound, ordinary, noCycle, rfl⟩

/-- A node that shares a child with the hierarchy comes into the hierarchy in front of this child, and
may then not take the place of the child below itself. -/
theorem child_edits_exact_sharingRun :
    ∃ after, (insertChild ⟨0⟩ 0 ⟨3⟩ []).apply (applyAll sharingRun (Tree.new "Guard")) =
        (.ok .done, after) ∧
      after.pool.links.Perm [(⟨0⟩, ⟨1⟩), (⟨3⟩, ⟨1⟩), (⟨0⟩, ⟨3⟩)] ∧
      ¬∃ parent index new,
        (applyAll sharingRun (Tree.new "Guard")).MayReplace ⟨3⟩ parent index ⟨1⟩ ⟨3⟩ new := by
  have links : (applyAll sharingRun (Tree.new "Guard")).pool.links =
      [(⟨0⟩, ⟨1⟩), (⟨3⟩, ⟨1⟩)] := by
    decide +kernel
  have accepted : ((insertChild ⟨0⟩ 0 ⟨3⟩ []).apply
      (applyAll sharingRun (Tree.new "Guard"))).1 = .ok .done := by
    decide +kernel
  have refused : ((replaceChild ⟨3⟩ ⟨1⟩ ⟨3⟩).apply
      (applyAll sharingRun (Tree.new "Guard"))).1 = .error (.cycle ⟨3⟩ ⟨3⟩) := by
    decide +kernel
  have exact := child_edits_exact (.fresh "Guard") allReferBack_sharingRun rfl
  rcases ((exact ⟨0⟩ ⟨3⟩ [] .done _).2.1 0).mp (Prod.ext accepted rfl)
    with ⟨_, parent, child, _, _, inserted⟩
  rw [links] at inserted
  refine ⟨_, Prod.ext accepted rfl, inserted, ?_⟩
  rintro ⟨parent, index, new, may⟩
  have distinct := (orderly_applyAll sharingRun (Tree.authored_new "Guard").orderly).nodup_ids
  have done := ((exact ⟨3⟩ ⟨3⟩ [] .done _).2.2 ⟨1⟩).mpr
    ⟨rfl, parent, index, new, may, rfl, may.links distinct⟩
  rw [done] at refused
  cases refused

end Edit

end BehaviorTree
