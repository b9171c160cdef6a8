import BehaviorTree.Project.Run
import BehaviorTree.Proofs.Document.EditedTrees
import BehaviorTree.Proofs.Tree.Cycles

/-!
# What is printed of a tree

A tree is printed by a recursion from every node to its children.  The recursion does not remember
what it has come to: it would not end on a cycle, and it prints a shared node once for every way down.
The walk of the hierarchy does remember, and passes over what it has met before.

Both come to the same nodes in the same order.  The reason is that without cycles everything below a
visited node has been visited as well, unless the node is above the place where the walk is; and from
there the walk cannot come back to it.
-/

namespace BehaviorTree

open Relation

namespace Tree

/-! ## The recursion of a print -/

/-- What is printed of a node at a depth: its own line, and then what is printed of each child.
Nothing guards the recursion, so there is no derivation where it does not end. -/
inductive Prints (tree : Tree) :
    Option ParameterSet → Nat → NodeId → List OutlineEntry → Prop
  | missing {bindings : Option ParameterSet} {depth : Nat} {id : NodeId}
      (unknown : tree.get? id = none) : Prints tree bindings depth id []
  | node {bindings : Option ParameterSet} {depth : Nat} {id : NodeId} {node : Node}
      {below : Edge → List OutlineEntry} (found : tree.get? id = some node)
      (each : ∀ edge ∈ node.edges,
        Prints tree (some edge.bindings) (depth + 1) edge.child (below edge)) :
      Prints tree bindings depth id (⟨id, node, bindings, depth⟩ :: node.edges.flatMap below)

variable {tree : Tree} {id other : NodeId}

namespace Prints

variable {bindings otherBindings : Option ParameterSet} {depth otherDepth : Nat}
  {entries otherEntries : List OutlineEntry}

/-- The nodes that are printed do not depend on how the recursion has come to the first of them. -/
theorem ids_eq (prints : tree.Prints bindings depth id entries)
    (again : tree.Prints otherBindings otherDepth id otherEntries) :
    entries.map OutlineEntry.id = otherEntries.map OutlineEntry.id := by
  induction prints generalizing otherBindings otherDepth otherEntries with
  | missing unknown =>
      cases again with
      | missing _ => rfl
      | node found _ => cases unknown.symm.trans found
  | node found each ih =>
      cases again with
      | missing unknown => cases unknown.symm.trans found
      | node otherFound otherEach =>
          rw [found, Option.some.injEq] at otherFound
          subst otherFound
          simp only [List.map_cons, List.map_flatMap]
          congr 1
          apply List.flatMap_congr
          intro edge member
          exact ih edge member (otherEach edge member)

theorem get?_eq (prints : tree.Prints bindings depth id entries) :
    ∀ entry ∈ entries, tree.get? entry.id = some entry.node := by
  induction prints with
  | missing _ => nofun
  | node found each ih =>
      intro entry member
      rcases List.mem_cons.mp member with rfl | below
      · exact found
      · rcases List.mem_flatMap.mp below with ⟨edge, edgeMem, printed⟩
        exact ih edge edgeMem entry printed

theorem unique (prints : tree.Prints bindings depth id entries)
    (again : tree.Prints bindings depth id otherEntries) : otherEntries = entries := by
  induction prints generalizing otherEntries with
  | missing unknown =>
      cases again with
      | missing _ => rfl
      | node found _ => cases unknown.symm.trans found
  | node found each ih =>
      cases again with
      | missing unknown => cases unknown.symm.trans found
      | node otherFound otherEach =>
          rw [found, Option.some.injEq] at otherFound
          subst otherFound
          congr 1
          apply List.flatMap_congr
          intro edge member
          exact ih edge member (otherEach edge member)

end Prints

/-- Where nothing is below itself, the recursion ends, and an outline is what it prints. -/
theorem prints_outlineBelow (acyclic : ∀ id, ¬TransGen tree.IsChild id id) (above : List NodeId)
    (bindings : Option ParameterSet) (id : NodeId)
    (leading : ∀ other ∈ above, TransGen tree.IsChild other id) :
    tree.Prints bindings above.length id (tree.outlineBelow above bindings id) := by
  fun_induction outlineBelow tree above bindings id with
  | case1 above bindings id again => exact absurd (leading id again) (acyclic id)
  | case2 above bindings id fresh missing => exact .missing missing
  | case3 above bindings id fresh node found ih =>
      refine .node found fun edge member => ih edge ?_
      intro other otherMem
      have step : tree.IsChild id edge.child := ⟨node, found, List.mem_map_of_mem member⟩
      rcases List.mem_cons.mp otherMem with rfl | higher
      · exact .single step
      · exact (leading other higher).tail step

theorem prints_outline (acyclic : ∀ id, ¬TransGen tree.IsChild id id) (id : NodeId) :
    tree.Prints none 0 id (tree.outline id) :=
  prints_outlineBelow acyclic [] none id nofun

/-! ## The nodes of an outline -/

/-- The nodes in the lines that are printed of a node. -/
def shown (tree : Tree) (id : NodeId) : List NodeId :=
  (tree.outline id).map OutlineEntry.id

theorem shown_of_missing (missing : tree.get? id = none) : tree.shown id = [] := by
  rw [shown, outline, outlineBelow]
  simp only [List.not_mem_nil, ↓reduceDIte]
  split
  · rfl
  · next node found => cases missing.symm.trans found

theorem shown_of_node (acyclic : ∀ id, ¬TransGen tree.IsChild id id) {node : Node}
    (found : tree.get? id = some node) :
    tree.shown id = id :: node.children.flatMap tree.shown := by
  rw [shown]
  generalize entries : tree.outline id = printed
  cases entries ▸ prints_outline acyclic id with
  | missing unknown => cases unknown.symm.trans found
  | node otherFound each =>
      rw [found, Option.some.injEq] at otherFound
      subst otherFound
      rw [List.map_cons, List.map_flatMap, Node.children, List.flatMap_map]
      congr 1
      apply List.flatMap_congr
      intro edge member
      exact (each edge member).ids_eq (prints_outline acyclic edge.child)

/-- What holds of a node if it holds of its children holds of every node: fewer lines are printed of
a child. -/
theorem descent_induction (acyclic : ∀ id, ¬TransGen tree.IsChild id id) {motive : NodeId → Prop}
    (step : ∀ id, (∀ child, tree.IsChild id child → motive child) → motive id) (id : NodeId) :
    motive id := by
  induction size : (tree.shown id).length using Nat.strong_induction_on generalizing id with
  | _ size ih =>
    subst size
    apply step
    rintro child ⟨node, found, childMem⟩
    refine ih _ ?_ child rfl
    have part : (tree.shown child).Sublist (node.children.flatMap tree.shown) :=
      List.sublist_flatten_of_mem (List.mem_map_of_mem childMem)
    rw [shown_of_node acyclic found, List.length_cons]
    exact Nat.lt_succ_of_le part.length_le

/-- The recursion ends at any depth. -/
theorem exists_prints (acyclic : ∀ id, ¬TransGen tree.IsChild id id)
    (bindings : Option ParameterSet) (depth : Nat) (id : NodeId) :
    ∃ entries, tree.Prints bindings depth id entries := by
  induction id using descent_induction acyclic generalizing bindings depth with
  | step id ih =>
    rcases found : tree.get? id with _ | node
    · exact ⟨[], .missing found⟩
    · have each : ∀ edge : Edge, ∃ entries, edge ∈ node.edges →
          tree.Prints (some edge.bindings) (depth + 1) edge.child entries := by
        intro edge
        by_cases member : edge ∈ node.edges
        · have step : tree.IsChild id edge.child := ⟨node, found, List.mem_map_of_mem member⟩
          rcases ih edge.child step (some edge.bindings) (depth + 1) with ⟨entries, prints⟩
          exact ⟨entries, fun _ => prints⟩
        · exact ⟨[], fun listed => absurd listed member⟩
      choose below prints using each
      exact ⟨_, .node found prints⟩

/-- A line is printed for every pooled node that a path leads to. -/
theorem mem_shown_iff (acyclic : ∀ id, ¬TransGen tree.IsChild id id) :
    other ∈ tree.shown id ↔
      ReflTransGen tree.IsChild id other ∧ ∃ node, tree.get? other = some node := by
  induction id using descent_induction acyclic with
  | step id ih =>
    rcases found : tree.get? id with _ | node
    · rw [shown_of_missing found]
      refine iff_of_false List.not_mem_nil ?_
      rintro ⟨path, node, otherFound⟩
      rcases path.cases_head with rfl | ⟨next, step, _⟩
      · cases found.symm.trans otherFound
      · exact not_isChild_of_get?_eq_none found step
    · rw [shown_of_node acyclic found, List.mem_cons, List.mem_flatMap]
      constructor
      · rintro (rfl | ⟨child, childMem, below⟩)
        · exact ⟨.refl, node, found⟩
        · rcases (ih child ⟨node, found, childMem⟩).mp below with ⟨path, pooled⟩
          exact ⟨path.head ⟨node, found, childMem⟩, pooled⟩
      · rintro ⟨path, pooled⟩
        rcases path.cases_head with rfl | ⟨child, step, rest⟩
        · exact .inl rfl
        · exact .inr ⟨child, (isChild_iff found).mp step, (ih child step).mpr ⟨rest, pooled⟩⟩

/-! ## The walk that remembers -/

/-- Wherever a node leads to a visited one, all that is below the visited one has been visited. -/
def Settled (tree : Tree) (visited : List NodeId) (id : NodeId) : Prop :=
  ∀ seen ∈ visited, ReflTransGen tree.IsChild id seen → ∀ other ∈ tree.shown seen, other ∈ visited

/-- Of what is printed, the first lines of the nodes that have not been visited. -/
def firstShown (tree : Tree) (stack visited : List NodeId) : List NodeId :=
  ((stack.flatMap tree.shown).filter (· ∉ visited)).eraseDups

variable {visited : List NodeId}

/-- A path past the visited nodes, or through one of them. -/
theorem freshPath_or_seen (path : ReflTransGen tree.IsChild id other) :
    ReflTransGen (tree.FreshStep visited) id other ∨
      ∃ seen ∈ visited, ReflTransGen tree.IsChild id seen ∧ ReflTransGen tree.IsChild seen other := by
  induction path using ReflTransGen.head_induction_on with
  | refl => exact .inl .refl
  | @head id next step rest ih =>
      by_cases visitedHere : id ∈ visited
      · exact .inr ⟨id, visitedHere, .refl, rest.head step⟩
      · rcases ih with fresh | ⟨seen, member, before, after⟩
        · exact .inl (fresh.head ⟨visitedHere, step⟩)
        · exact .inr ⟨seen, member, before.head step, after⟩

variable (acyclic : ∀ id, ¬TransGen tree.IsChild id id)
include acyclic

theorem pooled_of_mem_shown (member : other ∈ tree.shown id) : ∃ node, tree.get? other = some node :=
  ((mem_shown_iff acyclic).mp member).2

/-- After a walk from a settled node, what is below it has been visited. -/
theorem mem_visited_of_mem_shown (settled : tree.Settled visited id)
    (member : other ∈ tree.shown id) : other ∈ (tree.walk [id] visited).1 := by
  rw [mem_visited_walk_iff]
  rcases (mem_shown_iff acyclic).mp member with ⟨path, pooled⟩
  rcases freshPath_or_seen path with fresh | ⟨seen, seenMem, before, after⟩
  · exact .inr ⟨id, List.mem_singleton_self id, fresh⟩
  · exact .inl (settled seen seenMem before other ((mem_shown_iff acyclic).mpr ⟨after, pooled⟩))

theorem mem_visited_walk_iff_shown (settled : tree.Settled visited id)
    (pooled : ∃ node, tree.get? other = some node) :
    other ∈ (tree.walk [id] visited).1 ↔ other ∈ visited ∨ other ∈ tree.shown id := by
  constructor
  · rw [mem_visited_walk_iff]
    rintro (old | ⟨start, startMem, path⟩)
    · exact .inl old
    · obtain rfl := List.mem_singleton.mp startMem
      exact .inr ((mem_shown_iff acyclic).mpr ⟨path_of_freshPath path, pooled⟩)
  · rintro (old | new)
    · exact (mem_visited_walk_iff ..).mpr (.inl old)
    · exact mem_visited_of_mem_shown acyclic settled new

/-- A walk from one node leaves another node settled. -/
theorem Settled.walk {start : NodeId} (settled : tree.Settled visited start)
    (later : tree.Settled visited id) : tree.Settled (tree.walk [start] visited).1 id := by
  intro seen seenMem path other member
  rcases (mem_visited_walk_iff ..).mp seenMem with old | ⟨first, firstMem, fresh⟩
  · exact (mem_visited_walk_iff ..).mpr (.inl (later seen old path other member))
  · obtain rfl := List.mem_singleton.mp firstMem
    rcases (mem_shown_iff acyclic).mp member with ⟨below, pooled⟩
    apply mem_visited_of_mem_shown acyclic settled
    exact (mem_shown_iff acyclic).mpr ⟨(path_of_freshPath fresh).trans below, pooled⟩

/-- If the walk from each node of a stack meets the first lines of this node, the walk of the stack
meets the first lines of all. -/
theorem met_walk_of_each {stack : List NodeId}
    (each : ∀ start ∈ stack, ∀ visited, tree.Settled visited start →
      (tree.walk [start] visited).2 = tree.firstShown [start] visited)
    (settled : ∀ start ∈ stack, tree.Settled visited start) :
    (tree.walk stack visited).2 = tree.firstShown stack visited := by
  induction stack generalizing visited with
  | nil => rw [walk]; rfl
  | cons start stack ih =>
      have first := settled start List.mem_cons_self
      have later : ∀ other ∈ stack, tree.Settled (tree.walk [start] visited).1 other :=
        fun other member => first.walk acyclic (settled other (List.mem_cons_of_mem _ member))
      have rest := ih (fun other member => each other (List.mem_cons_of_mem _ member)) later
      -- What the rest adds is what neither has been visited nor is below the first node.
      have apart : (stack.flatMap tree.shown).filter (· ∉ (tree.walk [start] visited).1) =
          ((stack.flatMap tree.shown).filter (· ∉ visited)).removeAll
            ((tree.shown start).filter (· ∉ visited)) := by
        rw [List.removeAll, List.filter_filter]
        apply List.filter_congr
        intro other member
        rcases List.mem_flatMap.mp member with ⟨_, _, below⟩
        have after := mem_visited_walk_iff_shown acyclic first (pooled_of_mem_shown acyclic below)
        by_cases old : other ∈ visited <;> simp [after, old]
      rw [← List.singleton_append, walk_append]
      dsimp only
      rw [rest, each start List.mem_cons_self visited first, firstShown, firstShown, firstShown,
        apart, List.flatMap_append, List.filter_append, List.eraseDups_append, List.flatMap_singleton]

/-- The walk from a settled node meets what is printed of it, each node where it is printed for the
first time. -/
theorem met_walk_singleton (id : NodeId) (visited : List NodeId)
    (settled : tree.Settled visited id) :
    (tree.walk [id] visited).2 = tree.firstShown [id] visited := by
  induction id using descent_induction acyclic generalizing visited with
  | step id ih =>
    rw [firstShown, List.flatMap_singleton, walk]
    split
    · next seen =>
        have all : (tree.shown id).filter (· ∉ visited) = [] := by
          rw [List.filter_eq_nil_iff]
          intro other member
          simpa using settled id seen .refl other member
        rw [all, walk]
        rfl
    · next fresh =>
        split
        · next missing =>
            rw [shown_of_missing missing, walk]
            rfl
        · next node found =>
            have below : ∀ child ∈ node.children, tree.Settled (id :: visited) child := by
              intro child childMem seen seenMem path other member
              have step : tree.IsChild id child := ⟨node, found, childMem⟩
              rcases List.mem_cons.mp seenMem with rfl | old
              · -- The node itself is visited, but a way back to it would close a cycle.
                exact absurd (TransGen.head' step path) (acyclic seen)
              · exact List.mem_cons_of_mem _ (settled seen old (path.head step) other member)
            have children := met_walk_of_each acyclic
              (fun child childMem => ih child ⟨node, found, childMem⟩) below
            rw [List.append_nil, shown_of_node acyclic found, List.filter_cons_of_pos (by simpa),
              List.eraseDups_cons, List.filter_filter]
            dsimp only
            rw [children, firstShown]
            congr 2
            apply List.filter_congr
            intro other _
            by_cases same : other = id <;> simp [same]

/-- The hierarchy consists of the first lines that are printed of the states. -/
theorem hierarchy_eq_firstShown : tree.hierarchy = (tree.states.flatMap tree.shown).eraseDups := by
  have settled : ∀ start ∈ tree.states, tree.Settled [] start := fun _ _ => nofun
  rw [hierarchy_eq_walk,
    met_walk_of_each acyclic (fun id _ => met_walk_singleton acyclic id) settled, firstShown]
  simp

end Tree

/-! ## Inspecting -/

namespace Project

open BehaviorTree.Tree

theorem mem_sectionLines {line : String} {lines : List String} (heading : String)
    (member : line ∈ lines) : line ∈ sectionLines heading lines := by
  rw [sectionLines, if_neg (by simpa using List.ne_nil_of_mem member)]
  exact List.mem_cons_of_mem _ (List.mem_cons_of_mem _ member)

/-- The line of an entry, indented by its depth. -/
def entryLine (entry : OutlineEntry) : String :=
  String.ofList (List.replicate (2 * (entry.depth + 1)) ' ') ++ entry.text

theorem mem_inspectLines {loaded : Document.Loaded} {entry : OutlineEntry}
    (member : entry ∈ (loaded.tree.states ++ loaded.tree.extras).flatMap loaded.tree.outline) :
    entryLine entry ∈ inspectLines loaded := by
  have printed : ∀ ids : List NodeId, entry ∈ ids.flatMap loaded.tree.outline →
      entryLine entry ∈ outlineLines loaded.tree ids :=
    fun _ listed => List.mem_map_of_mem listed
  rw [List.flatMap_append, List.mem_append] at member
  rw [inspectLines, List.mem_append, List.mem_append, List.mem_append]
  rcases member with reached | detached
  · exact .inl (.inl (.inr (printed _ reached)))
  · exact .inl (.inr (mem_sectionLines _ (printed _ detached)))

end Project

namespace Tree

variable {tree : Tree}

/-- What is printed of a tree, and how the walk of its hierarchy compares with it. -/
structure InspectionAgrees (tree : Tree) : Prop where
  /-- The recursion ends at every node, however it has come there, and has one outcome. -/
  ends : ∀ id ∈ tree.pool.ids, ∀ bindings depth,
    ∃! entries, tree.Prints bindings depth id entries
  prints : ∀ id ∈ tree.pool.ids, tree.Prints none 0 id (tree.outline id)
  hierarchy : tree.hierarchy =
    ((tree.states.flatMap tree.outline).map OutlineEntry.id).eraseDups
  /-- Every pooled node is printed, below a state or as detached work. -/
  complete : ∀ id node, tree.get? id = some node →
    ∃ entry ∈ (tree.states ++ tree.extras).flatMap tree.outline,
      entry.id = id ∧ entry.node = node ∧
        ∀ warnings, Project.entryLine entry ∈ Project.inspectLines ⟨tree, warnings⟩

theorem inspectionAgrees (acyclic : ∀ id, ¬TransGen tree.IsChild id id) :
    tree.InspectionAgrees where
  ends := by
    intro id _ bindings depth
    rcases exists_prints acyclic bindings depth id with ⟨entries, prints⟩
    exact ⟨entries, prints, fun _ again => prints.unique again⟩
  prints := fun id _ => prints_outline acyclic id
  hierarchy := by
    rw [List.map_flatMap]
    exact hierarchy_eq_firstShown acyclic
  complete := by
    intro id node found
    have printed : id ∈ (tree.states ++ tree.extras).flatMap tree.shown := by
      rw [List.flatMap_append, List.mem_append]
      by_cases reached : id ∈ tree.hierarchy
      · rw [hierarchy_eq_firstShown acyclic, List.mem_eraseDups] at reached
        exact .inl reached
      · have extra := mem_extras_iff.mpr ⟨Pool.mem_ids_of_get? found, reached⟩
        exact .inr (List.mem_flatMap.mpr
          ⟨id, extra, (mem_shown_iff acyclic).mpr ⟨.refl, node, found⟩⟩)
    rcases List.mem_flatMap.mp printed with ⟨root, rootMem, below⟩
    rcases List.mem_map.mp below with ⟨entry, entryMem, rfl⟩
    have pooled := (prints_outline acyclic root).get?_eq entry entryMem
    rw [found, Option.some.injEq] at pooled
    have listed := List.mem_flatMap.mpr ⟨root, rootMem, entryMem⟩
    exact ⟨entry, listed, rfl, pooled.symm, fun _ => Project.mem_inspectLines listed⟩

/-- Inspecting an edited tree ends, and it prints every node.  The hierarchy lists what is printed of
the states, each node where it is printed for the first time. -/
theorem inspection_shows_hierarchy {origin : Tree} (isOrigin : origin.IsOrigin) {edits : List Edit}
    (referring : Edit.AllReferBack edits origin) (edited : Edit.applyAll edits origin = tree) :
    tree.InspectionAgrees := by
  subst edited
  have orderly := Edit.orderly_applyAll edits isOrigin.rooted.orderly
  have acyclic := Edit.isAcyclic_applyAll edits isOrigin.rooted referring
  rw [IsAcyclic, ← isChild_eq_leads orderly.nodup_ids] at acyclic
  exact inspectionAgrees acyclic

/-- An action hangs below the state and, once more, below a sequence there. -/
def diamondRun : List Edit :=
  [.addNode (.fresh (.composite .sequence)),
    .addNode (.fresh (.action {})),
    .addChild ⟨0⟩ ⟨1⟩ [],
    .addChild ⟨1⟩ ⟨2⟩ [],
    .addChild ⟨0⟩ ⟨2⟩ [],
    .addNode (.fresh (.condition {}))]

theorem inspection_shows_hierarchy_diamondRun :
    (Edit.applyAll diamondRun (new "Guard")).InspectionAgrees ∧
      ((Edit.applyAll diamondRun (new "Guard")).states.flatMap
        (Edit.applyAll diamondRun (new "Guard")).outline).map OutlineEntry.id =
          [⟨0⟩, ⟨1⟩, ⟨2⟩, ⟨2⟩] ∧
      (Edit.applyAll diamondRun (new "Guard")).hierarchy = [⟨0⟩, ⟨1⟩, ⟨2⟩] := by
  have bare : ∀ edit ∈ diamondRun, edit.IsBare := by
    simp [diamondRun, Edit.IsBare, Node.fresh]
  refine ⟨?_, by decide +kernel, by decide +kernel⟩
  exact inspection_shows_hierarchy (.fresh "Guard")
    (Edit.allReferBack_of_bare diamondRun bare (new "Guard")) rfl

end Tree

end BehaviorTree
