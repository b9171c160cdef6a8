import BehaviorTree.Proofs.Tree.DetachedEdits
import BehaviorTree.Proofs.Tree.Links

/-!
# Cycles

Whether links form a cycle after one more link has been added, or after one has been redirected, is
decided by the paths in the links as they were.  For a redirected link this is not obvious, since the
old links still have the link that goes away; but a path back to its start cannot use it unless there
has been a cycle before.

No accepted edit closes a cycle, as long as added nodes refer to what has been created before.
-/

namespace BehaviorTree

open Relation

/-! ## Links -/

/-- The ends of a link. -/
def Leads (links : List Link) (parent child : NodeId) : Prop :=
  (parent, child) ∈ links

def IsAcyclic (links : List Link) : Prop :=
  ∀ id, ¬TransGen (Leads links) id id

variable {links : List Link} {parent child : NodeId}

theorem isAcyclic_nil : IsAcyclic [] := by
  intro id cycle
  rcases TransGen.head'_iff.mp cycle with ⟨_, step, _⟩
  cases step

theorem IsAcyclic.of_subset {others : List Link} (acyclic : IsAcyclic links)
    (subset : others ⊆ links) : IsAcyclic others :=
  Tree.acyclic_of_subgraph acyclic fun _ _ step => subset step

theorem leads_append_singleton {id other : NodeId} :
    Leads (links ++ [(parent, child)]) id other ↔
      Leads links id other ∨ (id = parent ∧ other = child) := by
  simp [Leads]

theorem not_reflTransGen_iff {step : NodeId → NodeId → Prop} :
    ¬ReflTransGen step child parent ↔ parent ≠ child ∧ ¬TransGen step child parent := by
  rw [reflTransGen_iff_eq_or_transGen, not_or]

theorem isAcyclic_append_iff (acyclic : IsAcyclic links) :
    IsAcyclic (links ++ [(parent, child)]) ↔ ¬ReflTransGen (Leads links) child parent := by
  constructor
  · intro still path
    have longer : ReflTransGen (Leads (links ++ [(parent, child)])) child parent :=
      ReflTransGen.mono (fun _ _ step => List.mem_append_left _ step) _ _ path
    have closing : Leads (links ++ [(parent, child)]) parent child :=
      leads_append_singleton.mpr (.inr ⟨rfl, rfl⟩)
    exact still parent (TransGen.head' closing longer)
  · intro noPath
    rcases not_reflTransGen_iff.mp noPath with ⟨notSame, notAbove⟩
    exact Tree.acyclic_of_new_edge acyclic (fun _ _ => leads_append_singleton.mp) notSame notAbove

/-- Without cycles, a path to a node never leaves that node. -/
theorem path_avoiding_links_of {start : NodeId} (acyclic : IsAcyclic links)
    (path : ReflTransGen (Leads links) start parent) :
    ReflTransGen (Leads (links.erase (parent, child))) start parent := by
  induction path using ReflTransGen.head_induction_on with
  | refl => exact .refl
  | @head id next step rest ih =>
      have elsewhere : id ≠ parent := by
        rintro rfl
        exact acyclic id (TransGen.head' step rest)
      refine ih.head ((List.mem_erase_of_ne ?_).mpr step)
      intro same
      exact elsewhere (congrArg Prod.fst same)

theorem isAcyclic_redirect_iff {old new : NodeId} (acyclic : IsAcyclic links) :
    IsAcyclic (links.erase (parent, old) ++ [(parent, new)]) ↔
      ¬ReflTransGen (Leads links) new parent := by
  have fewer : IsAcyclic (links.erase (parent, old)) := acyclic.of_subset List.erase_subset
  rw [isAcyclic_append_iff fewer]
  apply not_congr
  constructor
  · exact ReflTransGen.mono (fun _ _ step => List.erase_subset step) _ _
  · exact path_avoiding_links_of acyclic

/-! ## Trees -/

namespace Tree

variable {tree after : Tree}

theorem isChild_iff_leads (distinct : tree.pool.ids.Nodup) :
    tree.IsChild parent child ↔ Leads tree.pool.links parent child := by
  rw [Leads, Pool.links, List.mem_flatMap]
  constructor
  · rintro ⟨node, found, member⟩
    exact ⟨(parent, node), Pool.mem_of_get? found, List.mem_map_of_mem member⟩
  · rintro ⟨⟨id, node⟩, pooled, member⟩
    rcases List.mem_map.mp member with ⟨other, otherMem, same⟩
    rw [Prod.mk.injEq] at same
    rcases same with ⟨rfl, rfl⟩
    exact ⟨node, Pool.get?_of_mem distinct pooled, otherMem⟩

theorem isChild_eq_leads (distinct : tree.pool.ids.Nodup) :
    tree.IsChild = Leads tree.pool.links := by
  funext parent child
  exact propext (isChild_iff_leads distinct)

/-- No edge leads to a new node, so no cycle visits it. -/
theorem acyclic_insert {node : Node} (acyclic : ∀ id, ¬TransGen tree.IsChild id id)
    (refersBack : ∀ parent child, (tree.insert node).IsChild parent child →
      child.index < tree.created) (id : NodeId) : ¬TransGen (tree.insert node).IsChild id id := by
  have older : ∀ {parent child : NodeId}, (tree.insert node).IsChild parent child →
      child ≠ tree.nextId := by
    rintro parent child step rfl
    exact Nat.lt_irrefl _ (refersBack _ _ step)
  -- A path that starts elsewhere never comes to the new node, so it does not leave it either.
  have oldPath : ∀ {target : NodeId}, id ≠ tree.nextId →
      TransGen (tree.insert node).IsChild id target → TransGen tree.IsChild id target := by
    intro target start path
    induction path with
    | single step =>
        rcases isChild_of_insert step with old | ⟨new, _⟩
        · exact .single old
        · exact absurd new start
    | @tail middle target before step ih =>
        rcases isChild_of_insert step with old | ⟨new, _⟩
        · exact ih.tail old
        · rcases TransGen.tail'_iff.mp before with ⟨_, _, last⟩
          exact absurd new (older last)
  intro cycle
  rcases TransGen.tail'_iff.mp cycle with ⟨_, _, last⟩
  exact acyclic id (oldPath (older last) cycle)

end Tree

theorem Edit.Accepted.acyclic {tree after : Tree} {edit : Edit} {answer : Answer}
    (accepted : edit.Accepted tree answer after) (refersBack : tree.RefersBack)
    (added : edit.RefersBack tree) (acyclic : ∀ id, ¬TransGen tree.IsChild id id) :
    ∀ id, ¬TransGen after.IsChild id id := by
  cases accepted.rewires with
  | fewer edges => exact Tree.acyclic_of_subgraph acyclic edges
  | link pooled notSame notAbove edges =>
      exact Tree.acyclic_of_new_edge acyclic edges notSame notAbove
  | insert =>
      apply Tree.acyclic_insert acyclic
      intro parent child step
      rcases Tree.isChild_of_insert step with old | ⟨_, new⟩
      · exact refersBack parent child old
      · exact added child new

/-- The links of an edited tree form no cycle. -/
theorem Edit.isAcyclic_applyAll {tree : Tree} (edits : List Edit) (rooted : tree.Rooted)
    (added : AllReferBack edits tree) : IsAcyclic (applyAll edits tree).pool.links := by
  have orderly := orderly_applyAll edits rooted.orderly
  have kept : (applyAll edits tree).RefersBack ∧
      ∀ id, ¬TransGen (applyAll edits tree).IsChild id id := by
    apply allReferBack_induction (motive := fun tree =>
      tree.RefersBack ∧ ∀ id, ¬TransGen tree.IsChild id id) _ edits rooted.orderly added
      ⟨rooted.refersBack, rooted.acyclic⟩
    intro before after edit answer accepted orderly back holds
    exact ⟨accepted.refersBack orderly holds.1 back, accepted.acyclic holds.1 back holds.2⟩
  rw [IsAcyclic, ← Tree.isChild_eq_leads orderly.nodup_ids]
  exact kept.2

end BehaviorTree
