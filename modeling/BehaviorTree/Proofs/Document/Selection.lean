import BehaviorTree.Proofs.Document.Accounts
import BehaviorTree.Proofs.Tree.Cycles

/-!
# Selection of edges

A document may name edges that close cycles, lead from leaves or lead to states.  The child containers
are taken one after the other, and each is accepted or refused for what has been accepted before it.
Which edges of a cycle are left out therefore depends on their order, but the selection depends on
nothing else: neither on bindings nor on the rest of the tree.
-/

namespace BehaviorTree.Document

open BehaviorTree.Json Relation

/-! ## Containers -/

/-- The parameter of a record.  A type that is no word is read as the default. -/
def ParameterRecord.parameter (record : ParameterRecord) : Parameter :=
  ⟨record.name, (Vocabulary.ofWord ParameterType record.type).toOption.getD default, record.value⟩

/-- A child container whose parent and child are known. -/
structure Container where
  parentId : Int
  childId : Int
  parent : NodeId
  child : NodeId
  bindings : ParameterSet

def ChildRecord.container (record : ChildRecord) (entryId : Int) (parent child : NodeId) :
    Container where
  parentId := entryId
  childId := record.childId
  parent := parent
  child := child
  bindings := record.parameters.map ParameterRecord.parameter

namespace Container

def link (container : Container) : Link :=
  (container.parent, container.child)

/-- The edge of a container that is accepted: its bindings are in step with what the child defines.
-/
def edge (kept : Kept) (container : Container) : Edge :=
  ⟨container.child,
    (kept.pool.get? container.child).elim container.bindings (·.fit container.bindings)⟩

/-- The records that a container names may be parent and child at all. -/
structure Suits (kept : Kept) (container : Container) : Prop where
  inner : ∃ parent, kept.pool.get? container.parent = some parent ∧ parent.isLeaf = false
  ordinary : ∃ child, kept.pool.get? container.child = some child ∧ child.isState = false

/-- A container is accepted if its records suit each other and its child is neither the parent nor
above the parent. -/
structure Fits (kept : Kept) (accepted : List Container) (container : Container) : Prop
    extends container.Suits kept where
  no_path : ¬ReflTransGen (Leads (accepted.map link)) container.child container.parent

/-- Why a container is refused.  The first reason counts. -/
inductive Refused (kept : Kept) (accepted : List Container) (container : Container) :
    EditError → Prop
  | leaf {parent : Node} (parent_found : kept.pool.get? container.parent = some parent)
      (leaf : parent.isLeaf = true) : Refused kept accepted container (.leafNode parent.name)
  | state {parent child : Node} (parent_found : kept.pool.get? container.parent = some parent)
      (inner : parent.isLeaf = false) (child_found : kept.pool.get? container.child = some child)
      (state : child.isState = true) : Refused kept accepted container (.stateAsChild child.name)
  | cycle (suits : container.Suits kept)
      (path : ReflTransGen (Leads (accepted.map link)) container.child container.parent) :
      Refused kept accepted container (.cycle container.parent container.child)

variable {kept : Kept} {accepted : List Container} {container : Container}
  {reason other : EditError}

theorem Suits.parent_inner {parent : Node} (suits : container.Suits kept)
    (found : kept.pool.get? container.parent = some parent) : parent.isLeaf = false := by
  rcases suits.inner with ⟨node, nodeFound, inner⟩
  rw [found, Option.some.injEq] at nodeFound
  exact nodeFound ▸ inner

theorem Suits.child_ordinary {child : Node} (suits : container.Suits kept)
    (found : kept.pool.get? container.child = some child) : child.isState = false := by
  rcases suits.ordinary with ⟨node, nodeFound, ordinary⟩
  rw [found, Option.some.injEq] at nodeFound
  exact nodeFound ▸ ordinary

theorem Fits.not_refused (fits : container.Fits kept accepted) :
    ¬container.Refused kept accepted reason := by
  intro refused
  cases refused with
  | leaf found leaf => simp [fits.parent_inner found] at leaf
  | state _ _ found state => simp [fits.child_ordinary found] at state
  | cycle _ path => exact fits.no_path path

theorem Refused.unique (refused : container.Refused kept accepted reason)
    (again : container.Refused kept accepted other) : reason = other := by
  cases refused with
  | leaf found leaf =>
      cases again with
      | leaf otherFound _ =>
          rw [found, Option.some.injEq] at otherFound
          rw [otherFound]
      | state otherFound inner _ _ =>
          rw [found, Option.some.injEq] at otherFound
          simp [otherFound, inner] at leaf
      | cycle suits _ => simp [suits.parent_inner found] at leaf
  | state found inner childFound state =>
      cases again with
      | leaf otherFound leaf =>
          rw [found, Option.some.injEq] at otherFound
          simp [← otherFound, inner] at leaf
      | state _ _ otherFound _ =>
          rw [childFound, Option.some.injEq] at otherFound
          rw [otherFound]
      | cycle suits _ => simp [suits.child_ordinary childFound] at state
  | cycle suits path =>
      cases again with
      | leaf found leaf => simp [suits.parent_inner found] at leaf
      | state _ _ found state => simp [suits.child_ordinary found] at state
      | cycle _ _ => rfl

end Container

/-! ## Selecting -/

/-- Containers are taken one after the other, behind those that have been accepted before; in the end
some are accepted and the others refused. -/
inductive Selects (kept : Kept) :
    List Container → List Container → List Container → List (Container × EditError) → Prop
  | nil {accepted : List Container} : Selects kept accepted [] accepted []
  | accept {accepted rest final : List Container} {container : Container}
      {refused : List (Container × EditError)} (fits : container.Fits kept accepted)
      (later : Selects kept (accepted ++ [container]) rest final refused) :
      Selects kept accepted (container :: rest) final refused
  | refuse {accepted rest final : List Container} {container : Container} {reason : EditError}
      {refused : List (Container × EditError)}
      (against : container.Refused kept accepted reason)
      (later : Selects kept accepted rest final refused) :
      Selects kept accepted (container :: rest) final ((container, reason) :: refused)

namespace Selects

variable {kept : Kept} {accepted containers final : List Container}
  {refused : List (Container × EditError)}

/-- A selection has one outcome. -/
theorem unique {other : List Container} {otherRefused : List (Container × EditError)}
    (selects : Selects kept accepted containers final refused)
    (again : Selects kept accepted containers other otherRefused) :
    other = final ∧ otherRefused = refused := by
  induction selects generalizing other otherRefused with
  | nil =>
      cases again
      exact ⟨rfl, rfl⟩
  | accept fits _ ih =>
      cases again with
      | accept _ later => exact ih later
      | refuse against _ => exact absurd against fits.not_refused
  | refuse against _ ih =>
      cases again with
      | accept fits _ => exact absurd against fits.not_refused
      | refuse otherAgainst later =>
          rcases ih later with ⟨rfl, rfl⟩
          rw [against.unique otherAgainst]
          exact ⟨rfl, rfl⟩

theorem append {back last : List Container} {later : List (Container × EditError)}
    (first : Selects kept accepted containers final refused)
    (second : Selects kept final back last later) :
    Selects kept accepted (containers ++ back) last (refused ++ later) := by
  induction first with
  | nil => exact second
  | accept fits _ ih => exact .accept fits (ih second)
  | refuse against _ ih => exact .refuse against (ih second)

theorem suits (selects : Selects kept accepted containers final refused)
    (before : ∀ container ∈ accepted, container.Suits kept) :
    ∀ container ∈ final, container.Suits kept := by
  induction selects with
  | nil => exact before
  | accept fits _ ih =>
      apply ih
      intro container member
      rcases List.mem_append.mp member with old | new
      · exact before container old
      · exact List.mem_singleton.mp new ▸ fits.toSuits
  | refuse _ _ ih => exact ih before

/-- What is accepted forms no cycle. -/
theorem isAcyclic (selects : Selects kept accepted containers final refused)
    (acyclic : IsAcyclic (accepted.map Container.link)) :
    IsAcyclic (final.map Container.link) := by
  induction selects with
  | nil => exact acyclic
  | accept fits _ ih =>
      apply ih
      rw [List.map_append]
      exact (isAcyclic_append_iff acyclic).mpr fits.no_path
  | refuse _ _ ih => exact ih acyclic

/-- Where nothing is refused, everything is accepted. -/
theorem eq_append_of_none_refused (selects : Selects kept accepted containers final refused)
    (none : refused = []) : final = accepted ++ containers := by
  induction selects with
  | nil => rw [List.append_nil]
  | accept _ _ ih => rw [ih none, List.append_assoc, List.singleton_append]
  | refuse _ _ _ => cases none

/-- Containers that form no cycle together are accepted in any order. -/
theorem of_isAcyclic (suits : ∀ container ∈ containers, container.Suits kept)
    (acyclic : IsAcyclic ((accepted ++ containers).map Container.link)) :
    Selects kept accepted containers (accepted ++ containers) [] := by
  induction containers generalizing accepted with
  | nil =>
      rw [List.append_nil]
      exact .nil
  | cons container rest ih =>
      rw [List.append_cons] at acyclic ⊢
      refine .accept ⟨suits container List.mem_cons_self, ?_⟩
        (ih (fun other member => suits other (List.mem_cons_of_mem _ member)) acyclic)
      have front : IsAcyclic ((accepted ++ [container]).map Container.link) :=
        acyclic.of_subset (List.map_subset _ (List.subset_append_left _ _))
      have before : IsAcyclic (accepted.map Container.link) :=
        front.of_subset (List.map_subset _ (List.subset_append_left _ _))
      rw [List.map_append] at front
      exact (isAcyclic_append_iff before).mp front

end Selects

end BehaviorTree.Document
