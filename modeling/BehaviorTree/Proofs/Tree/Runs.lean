import BehaviorTree.Proofs.Tree.Preservation

/-!
# Runs of edits

A run applies its edits one after the other, whether they are accepted or refused.  What every
accepted edit keeps therefore holds after every run, and no identity is issued twice in a run.
-/

namespace BehaviorTree

open Relation

/-- An added node brings no edges with it. -/
def Edit.IsBare : Edit → Prop
  | addNode node => node.edges = []
  | _ => True

variable {tree after : Tree} {edit : Edit} {answer : Answer}

/-! ## Steps -/

/-- What an edit does to the pool as a whole: most edits change its nodes in place. -/
inductive Edit.Reshapes (tree : Tree) : Edit → Tree → Prop where
  | inPlace {edit : Edit} {after : Tree} (inPlace : tree.InPlace after) : Reshapes tree edit after
  | insert {node : Node} (ordinary : node.isState = false) :
      Reshapes tree (.addNode node) (tree.insert node)
  | withoutNode {id : NodeId} (detached : ¬tree.IsReached id) :
      Reshapes tree (.deleteNode id) (tree.withoutNode id)
  | insertState {name : String} : Reshapes tree (.addState name) (tree.insertState name)
  | withoutState {id : NodeId} {node : Node} (found : tree.get? id = some node)
      (state : id ∈ tree.states) (others : tree.states.length ≠ 1) :
      Reshapes tree (.removeState id) (tree.withoutState id node.name)

namespace Edit.Accepted

theorem attached_inPlace {parent child : NodeId} {index : Option Nat} {bindings : ParameterSet}
    (attached : tree.attached true parent index child bindings = .ok after) :
    tree.InPlace after := by
  rcases Tree.attached_eq_ok_iff.mp attached with ⟨_, _, _, _, _, rfl⟩
  exact Tree.inPlace_withEdges tree parent _

theorem attached_coherent {parent child : NodeId} {index : Option Nat} {bindings : ParameterSet}
    (coherent : tree.Coherent)
    (attached : tree.attached true parent index child bindings = .ok after) : after.Coherent := by
  rcases Tree.attached_eq_ok_iff.mp attached with ⟨_, _, _, attachable, _, rfl⟩
  exact attachable.coherent coherent

theorem attached_authored {parent child : NodeId} {index : Option Nat} {bindings : ParameterSet}
    (authored : tree.Authored)
    (attached : tree.attached true parent index child bindings = .ok after) : after.Authored := by
  rcases Tree.attached_eq_ok_iff.mp attached with ⟨_, _, _, attachable, _, rfl⟩
  exact attachable.authored authored

theorem reshapes (accepted : edit.Accepted tree answer after) : edit.Reshapes tree after := by
  cases accepted with
  | addNode ordinary => exact .insert ordinary
  | deleteNode found detached => exact .withoutNode detached
  | addState identifier fresh => exact .insertState
  | removeState found state others => exact .withoutState found state others
  | setDefaultState known => exact .inPlace (Tree.restyles_header tree _ _ _).toInPlace
  | setName => exact .inPlace (Tree.restyles_header tree _ _ _).toInPlace
  | setExpandMethods => exact .inPlace (Tree.restyles_header tree _ _ _).toInPlace
  | rename found identifier unshared => exact .inPlace (Tree.restyles_withName _ _).toInPlace
  | setWeight found positive finite => exact .inPlace (Tree.restyles_setWeight tree _ _).toInPlace
  | setComposite found kind same =>
      exact .inPlace (Tree.restyles_setComposite found kind same).toInPlace
  | addChild attached => exact .inPlace (attached_inPlace attached)
  | insertChild attached => exact .inPlace (attached_inPlace attached)
  | removeChild found position edgeFound => exact .inPlace (Tree.inPlace_withEdges tree _ _)
  | moveChild found edgeFound inRange => exact .inPlace (Tree.inPlace_withEdges tree _ _)
  | replaceChild found position childFound ordinary notSame notAbove =>
      exact .inPlace (Tree.inPlace_withEdges tree _ _)
  | addParameter found carried added =>
      exact .inPlace (Tree.restyles_withDefinitions tree _ _).toInPlace
  | removeParameter found carried defined =>
      exact .inPlace (Tree.restyles_withDefinitions tree _ _).toInPlace
  | setParameterDefault found carried defined =>
      exact .inPlace (Tree.restyles_withParameters tree _ _).toInPlace
  | setBinding found edgeFound bound => exact .inPlace (Tree.inPlace_withEdges tree _ _)
  | matchParameters => exact .inPlace (Tree.restyles_matchParameters tree).toInPlace
  | setProperties => exact .inPlace (Tree.restyles_withProperties tree _ _).toInPlace

/-- An accepted edit keeps the graph coherent, whatever the states are besides. -/
theorem coherent (accepted : edit.Accepted tree answer after) (bare : edit.IsBare)
    (coherent : tree.Coherent)
    (areStates : ∀ id ∈ tree.states, ∀ node, tree.get? id = some node → node.isState = true) :
    after.Coherent := by
  cases accepted with
  | addNode ordinary => exact coherent.insert bare
  | deleteNode found detached => exact coherent.withoutNode _
  | addState identifier fresh => exact coherent.insertState _
  | removeState found state others =>
      exact coherent.withoutState _ ⟨_, found, areStates _ state _ found⟩
  | setDefaultState known => exact (Tree.restyles_header tree _ _ _).coherent coherent
  | setName => exact (Tree.restyles_header tree _ _ _).coherent coherent
  | setExpandMethods => exact (Tree.restyles_header tree _ _ _).coherent coherent
  | rename found identifier unshared => exact (Tree.restyles_withName _ _).coherent coherent
  | setWeight found positive finite => exact (Tree.restyles_setWeight tree _ _).coherent coherent
  | setComposite found kind same =>
      exact (Tree.restyles_setComposite found kind same).coherent coherent
  | addChild attached => exact attached_coherent coherent attached
  | insertChild attached => exact attached_coherent coherent attached
  | removeChild found position edgeFound => exact coherent.removeEdge _
  | moveChild found edgeFound inRange => exact coherent.moveEdge found edgeFound
  | replaceChild found position childFound ordinary notSame notAbove =>
      exact coherent.replaceChild found (coherent.not_leaf_of_indexOf? found position) childFound
        ordinary notSame notAbove
  | addParameter found carried added =>
      exact (Tree.restyles_withDefinitions tree _ _).coherent coherent
  | removeParameter found carried defined =>
      exact (Tree.restyles_withDefinitions tree _ _).coherent coherent
  | setParameterDefault found carried defined =>
      exact (Tree.restyles_withParameters tree _ _).coherent coherent
  | setBinding found edgeFound bound =>
      exact (Tree.restyles_setBinding tree _ _ _ _).coherent coherent
  | matchParameters => exact (Tree.restyles_matchParameters tree).coherent coherent
  | setProperties => exact (Tree.restyles_withProperties tree _ _).coherent coherent

/-- An accepted edit keeps the states as the roots of a graph without cycles. -/
theorem rooted (accepted : edit.Accepted tree answer after) (bare : edit.IsBare)
    (rooted : tree.Rooted) : after.Rooted := by
  have coherent : after.Coherent := by
    apply accepted.coherent bare rooted.toCoherent
    intro id member node found
    exact rooted.isState_of_mem member found
  cases accepted.reshapes with
  | inPlace inPlace => exact inPlace.rooted rooted coherent
  | insert ordinary => exact rooted.insert bare ordinary
  | withoutNode detached => exact rooted.withoutNode detached
  | insertState => exact rooted.insertState _
  | withoutState found state others => exact rooted.withoutState _ state others

/-- An accepted edit keeps what an editor ensures. -/
theorem authored (accepted : edit.Accepted tree answer after) (bare : edit.IsBare)
    (authored : tree.Authored) : after.Authored := by
  have rooted := accepted.rooted bare authored.toRooted
  cases accepted with
  | addNode ordinary => exact authored.insert bare ordinary
  | deleteNode found detached => exact authored.withoutNode detached
  | addState identifier fresh => exact authored.insertState fresh
  | removeState found state others => exact authored.withoutState found state others
  | setDefaultState known =>
      exact {
        toRooted := rooted
        names_distinct := authored.names_distinct
        default_found := Tree.hasState_iff.mp known
        single := authored.single }
  | setName =>
      exact (Tree.restyles_header tree _ _ _).authored authored (fun _ => rfl) rfl
  | setExpandMethods =>
      exact (Tree.restyles_header tree _ _ _).authored authored (fun _ => rfl) rfl
  | rename found identifier unshared => exact authored.withName found unshared
  | setWeight found positive finite =>
      exact (Tree.restyles_setWeight tree _ _).authored authored
        (Tree.map_name_modify tree _ _ fun _ => rfl) rfl
  | setComposite found kind same =>
      exact (Tree.restyles_setComposite found kind same).authored authored
        (Tree.map_name_modify tree _ _ fun _ => rfl) rfl
  | addChild attached => exact attached_authored authored attached
  | insertChild attached => exact attached_authored authored attached
  | removeChild found position edgeFound =>
      apply authored.withEdges rooted.toCoherent
      intro node nodeFound decorator
      exact Nat.le_trans (List.length_eraseIdx_le ..) (authored.single _ node nodeFound decorator)
  | moveChild found edgeFound inRange =>
      apply authored.withEdges rooted.toCoherent
      intro node nodeFound decorator
      rw [found, Option.some.injEq] at nodeFound
      subst nodeFound
      have inside := (List.getElem?_eq_some_iff.mp edgeFound).1
      have single := authored.single _ _ found decorator
      have shorter := List.length_eraseIdx_of_lt inside
      apply Nat.le_trans List.length_insertIdx_le_succ
      omega
  | replaceChild found position childFound ordinary notSame notAbove =>
      apply authored.withEdges rooted.toCoherent
      intro node nodeFound decorator
      rw [List.length_modify]
      exact authored.single _ node nodeFound decorator
  | addParameter found carried added =>
      exact (Tree.restyles_withDefinitions tree _ _).authored authored
        (Tree.map_name_withDefinitions tree _ _) rfl
  | removeParameter found carried defined =>
      exact (Tree.restyles_withDefinitions tree _ _).authored authored
        (Tree.map_name_withDefinitions tree _ _) rfl
  | setParameterDefault found carried defined =>
      exact (Tree.restyles_withParameters tree _ _).authored authored
        (Tree.map_name_modify tree _ _ fun _ => rfl) rfl
  | setBinding found edgeFound bound =>
      exact (Tree.restyles_setBinding tree _ _ _ _).authored authored
        (Tree.map_name_modify tree _ _ fun _ => rfl) rfl
  | matchParameters =>
      exact (Tree.restyles_matchParameters tree).authored authored
        (Tree.map_name_mapEdges tree _) rfl
  | setProperties =>
      exact (Tree.restyles_withProperties tree _ _).authored authored
        (Tree.map_name_modify tree _ _
          fun node => Tree.foldl_withProperty Node.name Tree.name_withProperty _ node) rfl

end Edit.Accepted

/-- An accepted edit issues the next identity, or it issues none and creates nothing. -/
theorem Edit.Accepted.issues (accepted : edit.Accepted tree answer after) :
    (answer = .id tree.nextId ∧ after.created = tree.created + 1) ∨
      ((∀ id, answer ≠ .id id) ∧ after.created = tree.created) := by
  cases accepted with
  | addNode => exact .inl ⟨rfl, rfl⟩
  | addState => exact .inl ⟨rfl, rfl⟩
  | addChild attached =>
      rcases Tree.attached_eq_ok_iff.mp attached with ⟨_, _, _, _, _, rfl⟩
      exact .inr ⟨nofun, rfl⟩
  | insertChild attached =>
      rcases Tree.attached_eq_ok_iff.mp attached with ⟨_, _, _, _, _, rfl⟩
      exact .inr ⟨nofun, rfl⟩
  | _ => exact .inr ⟨nofun, rfl⟩

/-! ## Runs -/

namespace Edit

/-- What every edit keeps, accepted or refused, holds after every run. -/
theorem applyAll_induction {holds : Tree → Prop} {allowed : Edit → Prop}
    (kept : ∀ tree edit, holds tree → allowed edit → holds (edit.apply tree).2)
    (edits : List Edit) (allAllowed : ∀ edit ∈ edits, allowed edit) (start : holds tree) :
    holds (applyAll edits tree) := by
  induction edits generalizing tree with
  | nil => exact start
  | cons edit edits ih =>
      apply ih (fun later member => allAllowed later (List.mem_cons_of_mem _ member))
      exact kept tree edit start (allAllowed edit List.mem_cons_self)

/-- What a rooted tree has and every accepted edit keeps, it has after every run. -/
theorem applyAll_keeps {holds : Tree → Prop} {allowed : Edit → Prop}
    (rooted : ∀ tree, holds tree → tree.Rooted)
    (kept : ∀ tree edit answer after, holds tree → allowed edit →
      Accepted tree edit answer after → holds after)
    (edits : List Edit) (allAllowed : ∀ edit ∈ edits, allowed edit) (start : holds tree) :
    holds (applyAll edits tree) := by
  refine applyAll_induction (fun before edit start permitted => ?_) edits allAllowed start
  rcases edit.apply_cases (rooted before start).pooled
    with ⟨refusal, refused⟩ | ⟨answer, after, done, accepted⟩
  · simpa only [refused] using start
  · simpa only [done] using kept before edit answer after start permitted accepted

theorem rooted_applyAll (edits : List Edit) (bare : ∀ edit ∈ edits, edit.IsBare)
    (rooted : tree.Rooted) : (applyAll edits tree).Rooted :=
  applyAll_keeps (fun _ rooted => rooted)
    (fun _ _ _ _ rooted bare accepted => accepted.rooted bare rooted) edits bare rooted

theorem authored_applyAll (edits : List Edit) (bare : ∀ edit ∈ edits, edit.IsBare)
    (authored : tree.Authored) : (applyAll edits tree).Authored :=
  applyAll_keeps (fun _ authored => authored.toRooted)
    (fun _ _ _ _ authored bare accepted => accepted.authored bare authored) edits bare authored

/-- The identities that a run issues, in the order in which it issues them. -/
def issued : List Edit → Tree → List NodeId
  | [], _ => []
  | edit :: edits, tree =>
      match edit.apply tree with
      | (.ok (.id id), after) => id :: issued edits after
      | (_, after) => issued edits after

/-- A run issues identities in ascending order, from the number of nodes created before it to the
number of nodes created after it. -/
theorem issued_ascending (edits : List Edit) (bare : ∀ edit ∈ edits, edit.IsBare)
    (rooted : tree.Rooted) :
    (issued edits tree).Pairwise (·.index < ·.index) ∧
      (∀ id ∈ issued edits tree,
        tree.created ≤ id.index ∧ id.index < (applyAll edits tree).created) ∧
      tree.created ≤ (applyAll edits tree).created := by
  induction edits generalizing tree with
  | nil => exact ⟨.nil, nofun, Nat.le_refl _⟩
  | cons edit edits ih =>
      have laterBare : ∀ later ∈ edits, later.IsBare :=
        fun later member => bare later (List.mem_cons_of_mem _ member)
      change _ ∧ (∀ id ∈ _, _ ∧ _ < (applyAll edits (edit.apply tree).2).created) ∧
        _ ≤ (applyAll edits (edit.apply tree).2).created
      rcases edit.apply_cases rooted.pooled
        with ⟨refusal, refused⟩ | ⟨answer, after, done, accepted⟩
      · simpa only [issued, refused] using ih laterBare rooted
      · rcases ih laterBare (accepted.rooted (bare edit List.mem_cons_self) rooted)
          with ⟨ascending, between, grown⟩
        rcases accepted.issues with ⟨rfl, created⟩ | ⟨none, created⟩
        · simp only [issued, done]
          rw [created] at between grown
          refine ⟨List.pairwise_cons.mpr ⟨fun id member => (between id member).1, ascending⟩, ?_,
            by omega⟩
          intro id member
          rcases List.mem_cons.mp member with rfl | later
          · exact ⟨Nat.le_refl _, grown⟩
          · have bounds := between id later
            exact ⟨by omega, bounds.2⟩
        · have issued_eq : issued (edit :: edits) tree = issued edits after := by
            rw [issued, done]
            cases answer with
            | id id => exact absurd rfl (none id)
            | _ => rfl
          rw [issued_eq, done, ← created]
          exact ⟨ascending, between, grown⟩

end Edit

end BehaviorTree
