import BehaviorTree.Proofs.Document.RoundTrip
import BehaviorTree.Proofs.Tree.GivenBack

/-!
# Saving trees whose nodes have been given back

The bindings of a node that is given back may be out of step with its children, whose definitions may
have changed in the meantime.  A load brings them in step.  Apart from that it gives a copy of the
tree, as long as every child is there: an edge that leads nowhere is left out of the document.
-/

namespace BehaviorTree

open BehaviorTree.Document BehaviorTree.Number

namespace Tree

variable {tree : Tree} {weigh : Single → Single}

/-! ## Copies with bindings in step -/

theorem Coherent.fitBindings_copy (coherent : tree.Coherent) (weigh : Single → Single) {id : NodeId}
    (pooled : id ∈ tree.pool.ids) (bindings : ParameterSet) :
    (tree.copy weigh).fitBindings (tree.place id) bindings = tree.fitBindings id bindings := by
  rcases exists_get? pooled with ⟨node, found⟩
  have copied : (tree.copy weigh).get? (tree.place id) = some (tree.copiedNode weigh node) :=
    get?_copy_eq_some coherent.nodup_ids found
  exact (fitBindings_eq_fit copied bindings).trans (fitBindings_eq_fit found bindings).symm

theorem place_matchParameters (tree : Tree) (id : NodeId) :
    tree.matchParameters.place id = tree.place id := by
  rw [place, place, (restyles_matchParameters tree).numbered_eq]

/-- The copy is brought in step as the tree is. -/
theorem Rooted.isCopy_matched (rooted : tree.Rooted)
    (same : ∀ id node, tree.get? id = some node → weigh node.weight = node.weight) :
    tree.matchParameters.IsCopy (tree.copy weigh).matchParameters where
  name := rfl
  defaultState := rfl
  expandMethods := rfl
  order := by
    rw [(restyles_matchParameters _).ids, (restyles_matchParameters tree).numbered_eq, ids_copy]
    exact List.map_congr_left fun id _ => (tree.place_matchParameters id).symm
  distinct := by
    intro id pooled other _ equal
    rw [place_matchParameters, place_matchParameters] at equal
    rw [(restyles_matchParameters tree).ids] at pooled
    exact place_injective pooled equal
  states := by
    change tree.states.map tree.place = tree.states.map tree.matchParameters.place
    exact List.map_congr_left fun id _ => (tree.place_matchParameters id).symm
  nodes := by
    intro id matched found
    rw [matchParameters, get?, Pool.get?_mapEdges] at found
    rcases Option.map_eq_some_iff.mp found with ⟨node, nodeFound, rfl⟩
    have copied : (tree.copy weigh).get? (tree.place id) = some (tree.copiedNode weigh node) :=
      get?_copy_eq_some rooted.nodup_ids nodeFound
    rw [get?] at copied
    rw [place_matchParameters, matchParameters, get?, Pool.get?_mapEdges, copied, Option.map_some,
      Option.some.injEq]
    have edges : (tree.copiedNode weigh node).edges.map (fun edge =>
        { edge with bindings := (tree.copy weigh).fitBindings edge.child edge.bindings }) =
        (node.edges.map fun edge =>
          { edge with bindings := tree.fitBindings edge.child edge.bindings }).map fun edge =>
            { edge with child := tree.matchParameters.place edge.child } := by
      simp only [copiedNode, placed, List.map_map]
      apply List.map_congr_left
      intro edge member
      have pooled : edge.child ∈ tree.pool.ids :=
        rooted.toCoherent.child_mem_ids ⟨node, nodeFound, List.mem_map_of_mem member⟩
      simp only [Function.comp_apply, rooted.toCoherent.fitBindings_copy weigh pooled,
        place_matchParameters]
    rw [placed, edges, copiedNode, same id node nodeFound]
    rfl

/-- Whether or not its bindings are in step, a tree without loose edges is saved and loaded without a
warning, and then all bindings are in step. -/
theorem load_save_matched (rooted : tree.Rooted) (small : tree.pool.length ≤ 2 ^ 63)
    (readsBack : ∀ id node, tree.get? id = some node → ReadsBack node.weight) :
    ∃ copy, load tree.save = .ok ⟨copy, []⟩ ∧ tree.matchParameters.IsCopy copy := by
  refine ⟨(tree.copy weightAfter).matchParameters, load_save_eq rooted small readsBack, ?_⟩
  exact rooted.isCopy_matched fun id node found => (readsBack id node found).weightAfter

/-- Every node has as many children in another tree, where it stands under its number. -/
structure KeepsChildCounts (tree copy : Tree) : Prop where
  size : copy.pool.length = tree.pool.length
  nodes : ∀ id node, tree.get? id = some node → ∃ again, copy.get? (tree.place id) = some again ∧
    again.name = node.name ∧ again.children.length = node.children.length

theorem IsCopy.keepsChildCounts {copy : Tree} (isCopy : tree.matchParameters.IsCopy copy)
    (distinct : tree.pool.ids.Nodup) : tree.KeepsChildCounts copy where
  size := by
    have lengths := congrArg List.length isCopy.order
    rw [(restyles_matchParameters tree).numbered_eq, List.length_map, length_numbered distinct,
      Pool.ids, List.length_map] at lengths
    exact lengths
  nodes := by
    intro id node found
    rcases get?_matchParameters found with ⟨edges, matched⟩
    have children := (restyles_matchParameters tree).children id
    rw [matched, found, Option.map_some, Option.map_some, Option.some.injEq] at children
    have again := isCopy.nodes id _ matched
    rw [place_matchParameters] at again
    refine ⟨_, again, rfl, ?_⟩
    rw [← children]
    simp [placed, Node.children]

end Tree

/-! ## Runs that give nodes back -/

namespace Edit

/-- What comes of a run that gives deleted nodes back. -/
structure KeepsClosed (edits : List Edit) (origin : Tree) : Prop where
  /-- The pool is closed throughout the run if and only if each node finds its children. -/
  closed : (∀ count, (applyAll (edits.take count) origin).IsClosed) ↔ AllRejoin edits origin
  reloads : AllRejoin edits origin → (applyAll edits origin).pool.length ≤ 2 ^ 63 →
    (∀ id node, (applyAll edits origin).get? id = some node → node.weight.isFinite = true) →
    (∀ id node, (applyAll edits origin).get? id = some node → node.weight.isFinite = true →
      ReadsBack node.weight) →
    ∃ copy, Tree.load (applyAll edits origin).save = .ok ⟨copy, []⟩ ∧
      (applyAll edits origin).KeepsChildCounts copy

/-- A run that gives deleted nodes back keeps the pool closed, and every child count through saving and
loading, as long as each node finds its children when it comes back. -/
theorem given_back_keepsClosed {name : String} {edits : List Edit}
    (adds : AllAddFrom edits [] (Tree.new name)) : KeepsClosed edits (Tree.new name) where
  closed := allRejoin_iff_closed (Tree.authored_new name).toRooted (List.forall_mem_nil _) adds
  reloads := by
    intro rejoin small finite faithful
    have rooted : (applyAll edits (Tree.new name)).Rooted :=
      rooted_applyAll_of_rejoin (Tree.authored_new name).toRooted (List.forall_mem_nil _) adds rejoin
    rcases Tree.load_save_matched rooted small fun id node found =>
      faithful id node found (finite id node found) with ⟨copy, loaded, isCopy⟩
    exact ⟨copy, loaded, isCopy.keepsChildCounts rooted.nodup_ids⟩

/-- A sequence with an action, deleted and given back while the action is still there. -/
def rejoiningRun : List Edit := [
  .addNode (.fresh (.composite .sequence)),
  .addNode (.fresh (.action {})),
  .addChild ⟨1⟩ ⟨2⟩ [],
  .deleteNode ⟨1⟩,
  .addNode { Node.fresh (.composite .sequence) with edges := [⟨⟨2⟩, []⟩] },
  .addChild ⟨0⟩ ⟨3⟩ []]

theorem given_back_keepsClosed_rejoiningRun :
    KeepsClosed rejoiningRun (Tree.new "Guard") ∧
      (applyAll rejoiningRun (Tree.new "Guard")).pool.links = [(⟨0⟩, ⟨3⟩), (⟨3⟩, ⟨2⟩)] ∧
      ∃ copy, Tree.load (applyAll rejoiningRun (Tree.new "Guard")).save = .ok ⟨copy, []⟩ ∧
        (applyAll rejoiningRun (Tree.new "Guard")).KeepsChildCounts copy := by
  have adds : AllAddFrom rejoiningRun [] (Tree.new "Guard") :=
    ⟨.inl rfl, .inl rfl, trivial, trivial, .inr (by decide +kernel), trivial, trivial⟩
  have rejoin : AllRejoin rejoiningRun (Tree.new "Guard") :=
    ⟨List.forall_mem_nil _, List.forall_mem_nil _, trivial, trivial, by unfold Rejoins; decide +kernel,
      trivial, trivial⟩
  have weights : ∀ entry ∈ (applyAll rejoiningRun (Tree.new "Guard")).pool,
      entry.2.weight.isFinite = true ∧ ReadsBack entry.2.weight := by
    decide +kernel
  have keeps := given_back_keepsClosed adds
  refine ⟨keeps, by decide +kernel, keeps.reloads rejoin (by decide +kernel) ?_ ?_⟩
  · exact fun id node found => (weights _ (Pool.mem_of_get? found)).1
  · exact fun id node found _ => (weights _ (Pool.mem_of_get? found)).2

/-- The same, but the action is deleted as well before the sequence comes back. -/
def danglingRun : List Edit := [
  .addNode (.fresh (.composite .sequence)),
  .addNode (.fresh (.action {})),
  .addChild ⟨1⟩ ⟨2⟩ [],
  .deleteNode ⟨1⟩,
  .deleteNode ⟨2⟩,
  .addNode { Node.fresh (.composite .sequence) with edges := [⟨⟨2⟩, []⟩] }]

/-- The edge of the sequence leads nowhere; it counts as a child until the tree is saved and loaded. -/
theorem danglingRun_not_closed :
    AllAddFrom danglingRun [] (Tree.new "Guard") ∧
      ¬(applyAll danglingRun (Tree.new "Guard")).IsClosed ∧
      ∃ copy, Tree.load (applyAll danglingRun (Tree.new "Guard")).save = .ok ⟨copy, []⟩ ∧
        ¬(applyAll danglingRun (Tree.new "Guard")).KeepsChildCounts copy := by
  refine ⟨⟨.inl rfl, .inl rfl, trivial, trivial, trivial, .inr (by decide +kernel), trivial⟩, ?_, ?_⟩
  · intro closed
    have pooled : (⟨2⟩ : NodeId) ∈ (applyAll danglingRun (Tree.new "Guard")).pool.ids :=
      closed ⟨3⟩ ⟨2⟩ ⟨{ Node.fresh (.composite .sequence) with edges := [⟨⟨2⟩, []⟩] },
        by decide +kernel, by decide +kernel⟩
    exact absurd pooled (by decide +kernel)
  · -- what is loaded is the tree in which the sequence has just been added for the first time
    have readsBack : ∀ entry ∈ (applyAll danglingRun (Tree.new "Guard")).pool,
        ReadsBack entry.2.weight := by
      decide +kernel
    refine ⟨applyAll (danglingRun.take 1) (Tree.new "Guard"), ?_, ?_⟩
    · rw [Tree.load, Tree.read_save (by decide +kernel) fun id node found =>
        readsBack _ (Pool.mem_of_get? found), Except.map]
      decide +kernel
    intro keeps
    have given : (applyAll danglingRun (Tree.new "Guard")).get? ⟨3⟩ =
        some { Node.fresh (.composite .sequence) with edges := [⟨⟨2⟩, []⟩] } := by
      decide +kernel
    have placed : (applyAll danglingRun (Tree.new "Guard")).place ⟨3⟩ = ⟨1⟩ := by decide +kernel
    have loaded : (applyAll (danglingRun.take 1) (Tree.new "Guard")).get? ⟨1⟩ =
        some (Node.fresh (.composite .sequence)) := by
      decide +kernel
    rcases keeps.nodes ⟨3⟩ _ given with ⟨again, found, -, counts⟩
    rw [placed, loaded, Option.some.injEq] at found
    subst found
    exact absurd counts (by decide)

end Edit

end BehaviorTree
