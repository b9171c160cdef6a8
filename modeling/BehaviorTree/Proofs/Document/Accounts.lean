import BehaviorTree.Proofs.Document.Links
import BehaviorTree.Proofs.Document.Warnings

/-!
# What becomes of the edges of a document

Whatever a document holds below its top level, each of its child containers has one fate: it is an
edge, or there is one warning about it.  The loops of a load are followed with two ledgers, one of
the warnings about edges and one of the links, that every step carries on.

One step takes a link away without a warning of its own: where a document without states has its
root turned into a state, the edges that led to this root are dropped.  The edges and the warnings
add up to the containers exactly where no container has become such an edge.
-/

namespace BehaviorTree.Document

open BehaviorTree.Json Noted

/-! ## Kept records -/

/-- The node of a record, with the identity that the record has in its document, if it is kept. -/
def keptRecord? (value : Value) : Option (Int × Node) := do
  let record ← (BehaviorRecord.shape.decode value).toOption
  let node ← (nodeOf record).run.result.toOption
  return (record.id, node)

abbrev Kept := List (Int × Node)

namespace Kept

def places (kept : Kept) : List (Int × NodeId) :=
  kept.zipIdx.map fun (entry, index) => (entry.1, ⟨index⟩)

/-- The first record of an identity is the one that the hierarchy means. -/
def place? (kept : Kept) (id : Int) : Option NodeId :=
  kept.places.lookup id

def pool (kept : Kept) : Pool :=
  kept.zipIdx.map fun (entry, index) => (⟨index⟩, entry.2)

/-- The root that a document names, if it is a priority selector. -/
def legacyRoot? (kept : Kept) (rootId : Option Int) : Option NodeId :=
  (kept.place? (rootId.getD 0)).filter fun root => (kept.pool.get? root).any Node.isPriority

theorem any_pool (kept : Kept) (holds : Node → Bool) :
    kept.pool.any (fun entry => holds entry.2) = kept.any fun entry => holds entry.2 := by
  conv_rhs => rw [← List.zipIdx_map_fst 0 kept]
  rw [pool, List.any_map, List.any_map]
  rfl

theorem places_concat (kept : Kept) (entry : Int × Node) :
    places (kept ++ [entry]) = kept.places ++ [(entry.1, ⟨kept.length⟩)] := by
  simp [places, List.zipIdx_append]

theorem pool_concat (kept : Kept) (entry : Int × Node) :
    pool (kept ++ [entry]) = kept.pool ++ [(⟨kept.length⟩, entry.2)] := by
  simp [pool, List.zipIdx_append]

end Kept

/-! ## Fates -/

/-- What becomes of a child container. -/
inductive ChildFate where
  | attached (parent child : NodeId)
  | unresolved (id : Int)
  | rejected (parent child : Int) (reason : EditError)

namespace ChildFate

def links : ChildFate → List Link
  | attached parent child => [(parent, child)]
  | _ => []

def warnings : ChildFate → List LoadWarning
  | attached _ _ => []
  | unresolved id => [.unresolvedEdge id]
  | rejected parent child reason => [.rejectedEdge parent child reason]

/-- A container is a link or a warning. -/
theorem length_links_add_length_warnings (fate : ChildFate) :
    fate.links.length + fate.warnings.length = 1 := by
  cases fate <;> rfl

theorem length_flatMap_links_add_length_flatMap_warnings (fates : List ChildFate) :
    (fates.flatMap links).length + (fates.flatMap warnings).length = fates.length := by
  induction fates with
  | nil => rfl
  | cons fate fates ih =>
      have one := fate.length_links_add_length_warnings
      rw [List.flatMap_cons, List.flatMap_cons, List.length_append, List.length_append,
        List.length_cons]
      omega

/-- The fates that a container can have in the entry `entryId` of the node `parent`. -/
inductive Of (place? : Int → Option NodeId) (entryId : Int) (parent : NodeId)
    (record : ChildRecord) : ChildFate → Prop
  | attached {child : NodeId} (named : place? record.childId = some child) :
      Of place? entryId parent record (.attached parent child)
  | unresolved (unknown : place? record.childId = none) :
      Of place? entryId parent record (.unresolved record.childId)
  | rejected {child : NodeId} (named : place? record.childId = some child) (reason : EditError) :
      Of place? entryId parent record (.rejected entryId record.childId reason)

end ChildFate

/-- What becomes of an element of a hierarchy. -/
inductive EntryFate where
  | dropped (index : Nat) (reason : String)
  | unresolved (id : Int)
  | settled (children : List ChildFate)

namespace EntryFate

/-- The fates of the containers of an entry whose parent is known. -/
def children : EntryFate → List ChildFate
  | settled children => children
  | _ => []

def links (fate : EntryFate) : List Link :=
  fate.children.flatMap ChildFate.links

def warnings : EntryFate → List LoadWarning
  | dropped index reason => [.droppedHierarchy index reason]
  | unresolved id => [.unresolvedEdge id]
  | settled children => children.flatMap ChildFate.warnings

inductive Of (place? : Int → Option NodeId) (element : Value × Nat) : EntryFate → Prop
  | dropped {reason : String}
      (malformed : HierarchyEntry.shape.decode element.1 = .error reason) :
      Of place? element (.dropped element.2 reason)
  | unresolved {entry : HierarchyEntry}
      (decoded : HierarchyEntry.shape.decode element.1 = .ok entry)
      (unknown : place? entry.id = none) : Of place? element (.unresolved entry.id)
  | settled {entry : HierarchyEntry} {parent : NodeId} {children : List ChildFate}
      (decoded : HierarchyEntry.shape.decode element.1 = .ok entry)
      (named : place? entry.id = some parent)
      (each : List.Forall₂ (ChildFate.Of place? entry.id parent) entry.children children) :
      Of place? element (.settled children)

end EntryFate

/-! ## Ledgers -/

/-- An assembly that has kept the given records, with the warnings about edges and the links that
have come of the hierarchy so far. -/
structure Assembly.Ledger (assembly : Assembly) (kept : Kept) (warnings : List LoadWarning)
    (links : List Link) : Prop extends assembly.Sound where
  nodes : assembly.nodes = kept.places
  bare : assembly.builder.tree.pool.bare = kept.pool
  created : assembly.builder.tree.created = kept.length
  reported : assembly.warnings.filter LoadWarning.concernsEdges = warnings
  linked : assembly.builder.tree.pool.links.Perm links

/-- A tree with the kept records as its nodes and with the given links.  A promoted root has another
kind than its record, and no link leads to it. -/
structure Kept.Carried (kept : Kept) (root? : Option NodeId) (links : List Link) (tree : Tree) :
    Prop where
  records : ∀ id node, kept.pool.get? id = some node →
    ∃ edges kind, tree.get? id = some { node with edges, kind } ∧
      (root? ≠ some id → kind = node.kind)
  linked : tree.pool.links.Perm (links.filter fun link => root? ≠ some link.2)

theorem Kept.Carried.finish {kept : Kept} {root? : Option NodeId} {links : List Link}
    {builder : Builder} (carried : kept.Carried root? links builder.tree) (ids : List NodeId) :
    kept.Carried root? links (builder.finish ids) where
  records := by
    intro id node found
    rcases carried.records id node found with ⟨_, kind, pooled, same⟩
    rcases Builder.get?_finish pooled ids with ⟨edges, finished⟩
    exact ⟨edges, kind, finished, same⟩
  linked := by
    rw [Builder.links_finish]
    exact carried.linked

namespace Assembly.Ledger

variable {assembly : Assembly} {kept : Kept} {warnings : List LoadWarning} {links : List Link}

theorem node?_eq (ledger : assembly.Ledger kept warnings links) (id : Int) :
    assembly.node? id = kept.place? id := by
  rw [node?, ledger.nodes, Kept.place?]

/-- Warnings about edges are entered, others are not. -/
theorem report (ledger : assembly.Ledger kept warnings links) (more : List LoadWarning) :
    Ledger { assembly with warnings := assembly.warnings ++ more } kept
      (warnings ++ more.filter LoadWarning.concernsEdges) links where
  toSound := ledger.toSound.of_builder rfl rfl
  nodes := ledger.nodes
  bare := ledger.bare
  created := ledger.created
  reported := by rw [List.filter_append, ledger.reported]
  linked := ledger.linked

theorem quiet (ledger : assembly.Ledger kept warnings links) {α : Type} {noted : Noted α}
    (quiet : noted.Quiet) :
    Ledger { assembly with warnings := assembly.warnings ++ noted.warnings } kept warnings links := by
  have reported := ledger.report noted.warnings
  rwa [quiet, List.append_nil] at reported

theorem warn_other (ledger : assembly.Ledger kept warnings links) (warning : LoadWarning)
    (other : warning.concernsEdges = false) :
    (assembly.warn warning).Ledger kept warnings links :=
  ledger.quiet (quiet_note other)

/-! ### Records -/

theorem addNode (ledger : assembly.Ledger kept warnings links) (recordId : Int) {node : Node}
    (childless : node.edges = []) :
    (assembly.addNode recordId node).Ledger (kept ++ [(recordId, node)]) warnings links where
  toSound := ledger.toSound.addNode recordId childless
  nodes := by
    rw [Kept.places_concat, ← ledger.nodes, ← ledger.created]
    rfl
  bare := by
    rw [Kept.pool_concat, ← ledger.bare, ← ledger.created]
    have same : node.withEdges [] = node := by rw [Node.withEdges, ← childless]
    change Pool.bare (_ ++ [(_, node)]) = _
    rw [Pool.bare_append, Pool.bare_cons, same]
    rfl
  created := by
    rw [List.length_append, ← ledger.created]
    rfl
  reported := ledger.reported
  linked := by
    have same : (assembly.addNode recordId node).builder.tree.pool.links =
        assembly.builder.tree.pool.links := Pool.links_append_bare childless
    rw [same]
    exact ledger.linked

theorem addBehavior (ledger : assembly.Ledger kept warnings links) (element : Value × Nat) :
    (assembly.addBehavior element).Ledger (kept ++ (keptRecord? element.1).toList) warnings
      links := by
  rcases decoded : BehaviorRecord.shape.decode element.1 with reason | record
  · have dropped := ledger.warn_other (.droppedBehavior element.2 reason) rfl
    simpa [Assembly.addBehavior, keptRecord?, decoded, Except.toOption] using dropped
  · have noted := ledger.quiet (onValues_nodeOf record).quiet
    rcases built : (nodeOf record).run.result with reason | node
    · have dropped := noted.warn_other (.droppedBehavior element.2 reason) rfl
      simpa [Assembly.addBehavior, keptRecord?, decoded, built, Except.toOption] using dropped
    · have added := noted.addNode record.id (edges_nodeOf built)
      simpa [Assembly.addBehavior, keptRecord?, decoded, built, Except.toOption] using added

theorem addBehaviors (ledger : assembly.Ledger kept warnings links)
    (elements : List (Value × Nat)) :
    (elements.foldl Assembly.addBehavior assembly).Ledger
      (kept ++ elements.filterMap fun element => keptRecord? element.1) warnings links := by
  induction elements generalizing assembly kept with
  | nil => simpa using ledger
  | cons element elements ih =>
      have rest := ih (ledger.addBehavior element)
      rw [List.append_assoc] at rest
      cases found : keptRecord? element.1 <;> simpa [found] using rest

/-! ### The hierarchy -/

/-- A loop over parts of the hierarchy has one fate for each of them, if each step has one. -/
theorem foldl {Part Fate : Type} {step : Assembly → Part → Assembly} {Of : Part → Fate → Prop}
    {warningsOf : Fate → List LoadWarning} {linksOf : Fate → List Link}
    (each : ∀ {assembly warnings links}, assembly.Ledger kept warnings links → ∀ part,
      ∃ fate, Of part fate ∧
        (step assembly part).Ledger kept (warnings ++ warningsOf fate) (links ++ linksOf fate))
    (parts : List Part) (ledger : assembly.Ledger kept warnings links) :
    ∃ fates, List.Forall₂ Of parts fates ∧
      (parts.foldl step assembly).Ledger kept (warnings ++ fates.flatMap warningsOf)
        (links ++ fates.flatMap linksOf) := by
  induction parts generalizing assembly warnings links with
  | nil => exact ⟨[], .nil, by simpa using ledger⟩
  | cons part parts ih =>
      rcases each ledger part with ⟨fate, isFate, after⟩
      rcases ih after with ⟨fates, areFates, last⟩
      refine ⟨fate :: fates, .cons isFate areFates, ?_⟩
      simpa only [List.append_assoc, List.flatMap_cons, List.foldl_cons] using last

theorem addChild (ledger : assembly.Ledger kept warnings links) (entryId : Int) (parent : NodeId)
    (record : ChildRecord) :
    ∃ fate, ChildFate.Of kept.place? entryId parent record fate ∧
      (assembly.addChild entryId parent record).Ledger kept (warnings ++ fate.warnings)
        (links ++ fate.links) := by
  rw [Assembly.addChild]
  split
  · next unknown =>
      rw [ledger.node?_eq] at unknown
      refine ⟨_, .unresolved unknown, ?_⟩
      simp only [ChildFate.links, List.append_nil]
      exact ledger.report [.unresolvedEdge record.childId]
  · next child named =>
      rw [ledger.node?_eq] at named
      have noted := ledger.quiet (onValues_parametersOf
        (((assembly.builder.get? parent).map Node.name).getD "") record.parameters).quiet
      dsimp only
      split
      · next reason refused =>
          refine ⟨_, .rejected named reason, ?_⟩
          simp only [ChildFate.links, List.append_nil]
          exact noted.report [.rejectedEdge entryId record.childId reason]
      · next builder accepted =>
          refine ⟨_, .attached named, ?_⟩
          rcases Builder.links_attach ledger.coherent accepted with ⟨linked, bare, created⟩
          rw [ChildFate.warnings, List.append_nil]
          exact {
            toSound := noted.toSound.attach accepted
            nodes := noted.nodes
            bare := bare.trans noted.bare
            created := created.trans noted.created
            reported := noted.reported
            linked := linked.trans (ledger.linked.append_right _) }

theorem addEntry (ledger : assembly.Ledger kept warnings links) (entry : HierarchyEntry)
    {element : Value × Nat} (decoded : HierarchyEntry.shape.decode element.1 = .ok entry) :
    ∃ fate, EntryFate.Of kept.place? element fate ∧
      (assembly.addEntry entry).Ledger kept (warnings ++ fate.warnings) (links ++ fate.links) := by
  rw [Assembly.addEntry]
  split
  · next unknown =>
      rw [ledger.node?_eq] at unknown
      refine ⟨_, .unresolved decoded unknown, ?_⟩
      simp only [EntryFate.links, EntryFate.children, List.flatMap_nil, List.append_nil]
      exact ledger.report [.unresolvedEdge entry.id]
  · next parent named =>
      rw [ledger.node?_eq] at named
      rcases foldl (fun ledger record => ledger.addChild entry.id parent record) entry.children
        ledger with ⟨fates, each, after⟩
      exact ⟨_, .settled decoded named each, after⟩

theorem addHierarchy (ledger : assembly.Ledger kept warnings links) (element : Value × Nat) :
    ∃ fate, EntryFate.Of kept.place? element fate ∧
      (assembly.addHierarchy element).Ledger kept (warnings ++ fate.warnings)
        (links ++ fate.links) := by
  rw [Assembly.addHierarchy]
  split
  · next reason malformed =>
      refine ⟨_, .dropped malformed, ?_⟩
      simp only [EntryFate.links, EntryFate.children, List.flatMap_nil, List.append_nil]
      exact ledger.report [.droppedHierarchy element.2 reason]
  · next entry decoded => exact ledger.addEntry entry decoded

/-! ### The root -/

theorem states_isEmpty (ledger : assembly.Ledger kept warnings links) :
    assembly.states.isEmpty = !kept.any (·.2.isState) := by
  -- Attachments change edges only, so what the records say about kinds still holds.
  have pooled : kept.any (·.2.isState) = assembly.builder.tree.pool.any (·.2.isState) := by
    rw [← Kept.any_pool, ← ledger.bare, Pool.bare, Pool.mapNodes, List.any_map]
    rfl
  rw [pooled, Bool.eq_iff_iff, Bool.not_eq_true', List.any_eq_false, List.isEmpty_iff,
    List.eq_nil_iff_forall_not_mem]
  constructor
  · intro none entry member isState
    apply none entry.1
    apply (ledger.mem_states entry.1).mpr
    exact ⟨entry.2, Pool.get?_of_mem ledger.coherent.nodup_ids member, isState⟩
  · intro none id member
    rcases (ledger.mem_states id).mp member with ⟨node, found, isState⟩
    exact none (id, node) (Pool.mem_of_get? found) isState

/-- The named root can be promoted exactly if its record is that of a priority selector. -/
theorem legacyRoot?_eq (ledger : assembly.Ledger kept warnings links) (rootId : Option Int) :
    kept.legacyRoot? rootId = (assembly.node? (rootId.getD 0)).filter fun root =>
      (assembly.builder.promoteToState? root).isSome := by
  rw [Kept.legacyRoot?, ledger.node?_eq]
  congr 1
  funext root
  rw [Builder.isSome_promoteToState?, ← ledger.bare, Pool.bare, Pool.get?_mapNodes, Builder.get?,
    Tree.get?, Option.any_map]
  rfl

theorem carried (ledger : assembly.Ledger kept warnings links) :
    kept.Carried none links assembly.builder.tree where
  records := by
    intro id node found
    rw [← ledger.bare, Pool.bare, Pool.get?_mapNodes] at found
    rcases Option.map_eq_some_iff.mp found with ⟨pooled, pooledFound, rfl⟩
    exact ⟨pooled.edges, pooled.kind, pooledFound, fun _ => rfl⟩
  linked := by
    simpa using ledger.linked

theorem carried_promoted (ledger : assembly.Ledger kept warnings links) {root : NodeId}
    {builder : Builder} (done : assembly.builder.promoteToState? root = some builder) :
    kept.Carried (some root) links builder.tree where
  records := by
    intro id node found
    rcases ledger.carried.records id node found with ⟨edges, kind, pooled, same⟩
    rcases Builder.get?_promoteToState? done pooled with ⟨newEdges, newKind, newPooled, newSame⟩
    refine ⟨newEdges, newKind, newPooled, ?_⟩
    intro different
    have other : id ≠ root := by
      rintro rfl
      exact different rfl
    exact (newSame other).trans (same nofun)
  linked := by
    rw [Builder.links_promoteToState? done]
    have kept := ledger.linked.filter fun link => decide (link.2 ≠ root)
    simpa [eq_comm] using kept

/-- Where the root of a document is promoted, no edge to it is entered as lost. -/
theorem recoverState (ledger : assembly.Ledger kept warnings links) (rootId : Option Int) :
    kept.Carried (kept.legacyRoot? rootId) links (assembly.recoverState rootId).builder.tree ∧
      (assembly.recoverState rootId).warnings.filter LoadWarning.concernsEdges = warnings := by
  rw [ledger.legacyRoot?_eq, Assembly.recoverState]
  rcases named : assembly.node? (rootId.getD 0) with _ | root
  · have warned := ledger.warn_other (.synthesizedDefaultState defaultStateName) rfl
    exact ⟨warned.carried, warned.reported⟩
  · rcases done : assembly.builder.promoteToState? root with _ | builder
    · have warned := ledger.warn_other (.synthesizedDefaultState defaultStateName) rfl
      simp only [done, Option.filter_some, Option.isSome_none, Option.bind_eq_bind,
        Option.bind_some, Option.bind_none, Bool.false_eq_true, ↓reduceIte]
      exact ⟨warned.carried, warned.reported⟩
    · have carried := ledger.carried_promoted done
      have warned := ledger.warn_other
        (.legacyMigration (((builder.get? root).map Node.name).getD "")) rfl
      simp only [done, Option.filter_some, Option.isSome_some, Option.bind_eq_bind,
        Option.bind_some, Option.pure_def, ↓reduceIte]
      exact ⟨⟨carried.records, carried.linked⟩, warned.reported⟩

end Assembly.Ledger

/-! ## Drafts -/

namespace TreeDraft

def kept (draft : TreeDraft) : Kept :=
  draft.behaviors.filterMap keptRecord?

/-- The node that a draft without states makes a state: its root, if that is a priority selector. -/
def promotedRoot? (draft : TreeDraft) : Option NodeId :=
  if draft.kept.any (·.2.isState) then none
  else draft.kept.legacyRoot? draft.rootId

/-- The containers of an element of a hierarchy, if it is an entry and its parent is known. -/
def containersOf (draft : TreeDraft) (value : Value) : List ChildRecord :=
  match HierarchyEntry.shape.decode value with
  | .ok entry => if (draft.kept.place? entry.id).isSome then entry.children else []
  | .error _ => []

def containers (draft : TreeDraft) : List ChildRecord :=
  draft.hierarchy.flatMap draft.containersOf

theorem ledger_start (draft : TreeDraft) : draft.start.Ledger [] [] [] where
  toSound := Assembly.Sound.start draft
  nodes := rfl
  bare := rfl
  created := rfl
  reported := rfl
  linked := .refl _

/-- The records of a draft, assembled without its hierarchy. -/
def recorded (draft : TreeDraft) : Assembly :=
  draft.behaviors.zipIdx.foldl Assembly.addBehavior draft.start

theorem ledger_recorded (draft : TreeDraft) : draft.recorded.Ledger draft.kept [] [] := by
  have records := draft.ledger_start.addBehaviors draft.behaviors.zipIdx
  have kept : (draft.behaviors.zipIdx.filterMap fun element => keptRecord? element.1) =
      draft.kept := by
    rw [TreeDraft.kept]
    conv_rhs => rw [← List.zipIdx_map_fst 0 draft.behaviors, List.filterMap_map]
    rfl
  rwa [List.nil_append, kept] at records

theorem ledger_assembled (draft : TreeDraft) :
    ∃ fates, List.Forall₂ (EntryFate.Of draft.kept.place?) draft.hierarchy.zipIdx fates ∧
      draft.assembled.Ledger draft.kept (fates.flatMap EntryFate.warnings)
        (fates.flatMap EntryFate.links) :=
  Assembly.Ledger.foldl (fun ledger element => ledger.addHierarchy element) _ draft.ledger_recorded

theorem carried_loaded (draft : TreeDraft) :
    ∃ fates, List.Forall₂ (EntryFate.Of draft.kept.place?) draft.hierarchy.zipIdx fates ∧
      draft.loaded.warnings.filter LoadWarning.concernsEdges =
        fates.flatMap EntryFate.warnings ∧
      draft.kept.Carried draft.promotedRoot? (fates.flatMap EntryFate.links)
        draft.loaded.tree := by
  rcases draft.ledger_assembled with ⟨fates, each, ledger⟩
  refine ⟨fates, each, ?_⟩
  rw [promotedRoot?, loaded]
  dsimp only
  rw [ledger.states_isEmpty]
  by_cases stateful : draft.kept.any (·.2.isState) = true
  · simp only [stateful, ↓reduceIte, Bool.not_true, Bool.false_eq_true]
    exact ⟨ledger.reported, ledger.carried.finish _⟩
  · rw [Bool.not_eq_true] at stateful
    simp only [stateful, ↓reduceIte, Bool.not_false, Bool.false_eq_true]
    rcases ledger.recoverState draft.rootId with ⟨carried, reported⟩
    exact ⟨reported, carried.finish _⟩

theorem length_children_of {draft : TreeDraft} {element : Value × Nat} {fate : EntryFate}
    (isFate : EntryFate.Of draft.kept.place? element fate) :
    fate.children.length = (draft.containersOf element.1).length := by
  cases isFate with
  | dropped malformed => simp [containersOf, malformed, EntryFate.children]
  | unresolved decoded unknown =>
      simp [containersOf, decoded, unknown, EntryFate.children]
  | settled decoded named each =>
      simp [containersOf, decoded, named, EntryFate.children, each.length_eq]

theorem length_containers {draft : TreeDraft} {fates : List EntryFate}
    (each : List.Forall₂ (EntryFate.Of draft.kept.place?) draft.hierarchy.zipIdx fates) :
    (fates.flatMap EntryFate.children).length = draft.containers.length := by
  have elements : draft.containers =
      draft.hierarchy.zipIdx.flatMap fun element => draft.containersOf element.1 := by
    rw [containers]
    conv_lhs => rw [← List.zipIdx_map_fst 0 draft.hierarchy, List.flatMap_map]
  rw [elements]
  generalize draft.hierarchy.zipIdx = parts at each
  induction each with
  | nil => rfl
  | cons isFate _ ih =>
      rw [List.flatMap_cons, List.flatMap_cons, List.length_append, List.length_append, ih,
        length_children_of isFate]

end TreeDraft

/-- What a load tells about the hierarchy of a draft, given the fates of its elements. -/
structure Loaded.AccountsFor (loaded : Loaded) (draft : TreeDraft) (fates : List EntryFate) :
    Prop where
  each : List.Forall₂ (EntryFate.Of draft.kept.place?) draft.hierarchy.zipIdx fates
  reported : loaded.warnings.filter LoadWarning.concernsEdges = fates.flatMap EntryFate.warnings
  carried : draft.kept.Carried draft.promotedRoot? (fates.flatMap EntryFate.links) loaded.tree
  /-- Links and warnings add up to the containers, unless there has been a link to a promoted root.
  -/
  balanced :
    loaded.tree.pool.links.length +
          ((fates.flatMap EntryFate.children).flatMap ChildFate.warnings).length =
        draft.containers.length ↔
      ∀ link ∈ fates.flatMap EntryFate.links, draft.promotedRoot? ≠ some link.2

end BehaviorTree.Document

namespace BehaviorTree.Tree

open BehaviorTree.Document

/-- A load accounts for every edge of its document, but for those to a root that it promotes: they
are neither in the tree nor in a warning. -/
theorem load_accounts_for_edges {text : String} {draft : TreeDraft}
    (decoded : TreeDraft.shape.read text = .ok draft) :
    ∃ loaded fates, load text = .ok loaded ∧ loaded.AccountsFor draft fates := by
  rcases draft.carried_loaded with ⟨fates, each, reported, carried⟩
  refine ⟨draft.loaded, fates, by rw [load, decoded, Except.map], each, reported, carried, ?_⟩
  have containers := ChildFate.length_flatMap_links_add_length_flatMap_warnings
    (fates.flatMap EntryFate.children)
  rw [TreeDraft.length_containers each, List.flatMap_assoc] at containers
  rw [carried.linked.length_eq, ← containers, Nat.add_right_cancel_iff]
  exact List.length_filter_eq_length_iff.trans (by simp [EntryFate.links])

/-- A document without states, in which another selector has the root and an unknown node as
children. -/
def rootBelowText : String :=
  "\x7b\"Behaviors\":[" ++
    "\x7b\"BehaviorType\":\"Composite\",\"CompositeType\":\"Priority\"," ++
      "\"Id\":0,\"Name\":\"Root\"\x7d," ++
    "\x7b\"BehaviorType\":\"Composite\",\"CompositeType\":\"Sequence\",\"Id\":1\x7d]," ++
  "\"Hierarchy\":[" ++
    "\x7b\"Id\":1,\"Children\":[\x7b\"ChildId\":0\x7d,\x7b\"ChildId\":2\x7d]\x7d]\x7d"

/-- Of two containers one has a warning, and the other leaves neither a warning nor a link. -/
theorem load_accounts_for_edges_rootBelow :
    ∃ draft loaded fates, TreeDraft.shape.read rootBelowText = .ok draft ∧
      load rootBelowText = .ok loaded ∧ loaded.AccountsFor draft fates ∧
      draft.promotedRoot? = some ⟨0⟩ ∧ draft.containers.length = 2 ∧
      loaded.tree.pool.links = [] ∧
      loaded.warnings = [.unresolvedEdge 2, .legacyMigration "Root"] := by
  have computed : (TreeDraft.shape.read rootBelowText).toOption.map
      (fun draft => (draft.promotedRoot?, draft.containers.length,
        draft.loaded.tree.pool.links, draft.loaded.warnings)) =
      some (some ⟨0⟩, 2, [], [.unresolvedEdge 2, .legacyMigration "Root"]) := by
    decide +kernel
  rcases decoded : TreeDraft.shape.read rootBelowText with failure | draft
  · rw [decoded] at computed
    cases computed
  · rcases load_accounts_for_edges decoded with ⟨loaded, fates, accepted, accounts⟩
    rcases load_eq_ok accepted with ⟨other, read, rfl⟩
    rw [decoded, Except.ok.injEq] at read
    subst other
    rw [decoded] at computed
    simp only [Except.toOption, Option.map_some, Option.some.injEq, Prod.mk.injEq] at computed
    rcases computed with ⟨root, containers, links, warnings⟩
    exact ⟨draft, _, fates, rfl, accepted, accounts, root, containers, links, warnings⟩

end BehaviorTree.Tree
