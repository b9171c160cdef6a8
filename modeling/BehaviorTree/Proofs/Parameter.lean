import BehaviorTree.Parameter
import Mathlib.Data.List.Nodup

/-!
# Bindings in step

Bindings are in step with definitions if every binding is defined with its type and every definition
is bound.  `matched` brings any bindings in step, and changes none that are; what edits do to values
keeps bindings in step as they are.  When one definition is added or taken away, bindings that were in
step change in one place.
-/

namespace BehaviorTree.ParameterSet

/-- Every binding is defined, with the same type, and every definition is bound. -/
structure InStep (bindings definitions : ParameterSet) : Prop where
  defined : ∀ binding ∈ bindings, ∃ definition,
    find definitions binding.name = some definition ∧ definition.type = binding.type
  bound : ∀ definition ∈ definitions, defines bindings definition.name = true

variable {bindings definitions : ParameterSet} {name : String}

theorem defines_iff : defines bindings name = true ↔ ∃ binding ∈ bindings, binding.name = name := by
  simp only [defines, find, List.find?_isSome, decide_eq_true_eq]

theorem defines_iff_mem_names : defines bindings name = true ↔ name ∈ names bindings := by
  rw [defines_iff, names, List.mem_map]

theorem find_eq_none_iff : find definitions name = none ↔ name ∉ names definitions := by
  rw [← defines_iff_mem_names, defines, Option.not_isSome_iff_eq_none]

/-! ## Matching -/

theorem mem_retyped {binding : Parameter} (member : binding ∈ retyped definitions bindings) :
    ∃ definition, find definitions binding.name = some definition ∧
      definition.type = binding.type := by
  simp only [retyped, List.mem_filterMap, Option.map_eq_some_iff] at member
  rcases member with ⟨old, _, definition, found, rfl⟩
  exact ⟨definition, found, rfl⟩

theorem retyped_of_defined (defined : ∀ binding ∈ bindings, ∃ definition,
    find definitions binding.name = some definition ∧ definition.type = binding.type) :
    retyped definitions bindings = bindings := by
  have same : ∀ binding ∈ bindings, (find definitions binding.name).map
      (fun definition => { binding with type := definition.type }) = some binding := by
    intro binding member
    rcases defined binding member with ⟨definition, found, type⟩
    rw [found, Option.map_some, type]
  rw [retyped, List.filterMap_congr same, List.filterMap_some]

/-- One step of `completed`. -/
def complete (bindings : ParameterSet) (definition : Parameter) : ParameterSet :=
  if defines bindings definition.name then bindings else bindings ++ [definition]

theorem defines_complete_of_defines {definition : Parameter} (bound : defines bindings name = true) :
    defines (complete bindings definition) name = true := by
  rw [complete]
  split
  · exact bound
  · rcases defines_iff.mp bound with ⟨binding, member, named⟩
    exact defines_iff.mpr ⟨binding, List.mem_append_left _ member, named⟩

theorem defines_complete (bindings : ParameterSet) (definition : Parameter) :
    defines (complete bindings definition) definition.name = true := by
  rw [complete]
  split
  · assumption
  · exact defines_iff.mpr ⟨definition, List.mem_append_right _ List.mem_cons_self, rfl⟩

theorem foldl_complete_of_bound (bound : ∀ definition ∈ definitions,
    defines bindings definition.name = true) : definitions.foldl complete bindings = bindings := by
  induction definitions with
  | nil => rfl
  | cons definition definitions ih =>
      rw [List.foldl_cons, complete, if_pos (bound definition List.mem_cons_self)]
      exact ih fun later member => bound later (List.mem_cons_of_mem _ member)

/-- Bindings stay defined while they are completed with the rest of the definitions, once those
before the rest are bound. -/
theorem inStep_foldl_complete {seen rest : ParameterSet}
    (defined : ∀ binding ∈ bindings, ∃ definition,
      find (seen ++ rest) binding.name = some definition ∧ definition.type = binding.type)
    (bound : ∀ definition ∈ seen, defines bindings definition.name = true) :
    InStep (rest.foldl complete bindings) (seen ++ rest) := by
  induction rest generalizing seen bindings with
  | nil => exact ⟨defined, by simpa using bound⟩
  | cons definition rest ih =>
      rw [List.append_cons] at defined ⊢
      refine ih ?_ ?_
      · intro binding member
        rw [complete] at member
        split at member
        · exact defined binding member
        · next unbound =>
            rcases List.mem_append.mp member with old | new
            · exact defined binding old
            · rw [List.mem_singleton] at new
              subst new
              -- No earlier definition has the name, since it would be bound.
              have first : find seen binding.name = none := by
                rw [find, List.find?_eq_none]
                intro earlier earlierMember sameName
                rw [decide_eq_true_eq] at sameName
                exact unbound (sameName ▸ bound earlier earlierMember)
              refine ⟨binding, ?_, rfl⟩
              simp only [find] at first ⊢
              simp [List.find?_append, first]
      · intro earlier member
        rcases List.mem_append.mp member with old | new
        · exact defines_complete_of_defines (bound earlier old)
        · rw [List.mem_singleton] at new
          exact new ▸ defines_complete bindings definition

theorem inStep_matched (bindings definitions : ParameterSet) :
    InStep (matched bindings definitions) definitions :=
  (inStep_foldl_complete (fun _ => mem_retyped) nofun : InStep _ ([] ++ definitions))

theorem InStep.matched_eq (inStep : InStep bindings definitions) :
    matched bindings definitions = bindings := by
  rw [matched, retyped_of_defined inStep.defined]
  exact foldl_complete_of_bound inStep.bound

theorem InStep.mem_names_iff (inStep : InStep bindings definitions) :
    name ∈ names bindings ↔ name ∈ names definitions := by
  simp only [names, List.mem_map]
  constructor
  · rintro ⟨binding, member, rfl⟩
    rcases inStep.defined binding member with ⟨definition, found, _⟩
    have named := List.find?_some found
    exact ⟨definition, List.mem_of_find?_eq_some found, by simpa using named⟩
  · rintro ⟨definition, member, rfl⟩
    exact defines_iff.mp (inStep.bound definition member)

theorem InStep.type_eq (inStep : InStep bindings definitions) {binding : Parameter}
    (member : binding ∈ bindings) :
    (find definitions binding.name).map Parameter.type = some binding.type := by
  rcases inStep.defined binding member with ⟨definition, found, type⟩
  rw [found, Option.map_some, type]

/-! ### What is kept and what is added -/

/-- The first parameter of every name. -/
def firsts : ParameterSet → ParameterSet
  | [] => []
  | parameter :: rest => parameter :: (firsts rest).filter (·.name ≠ parameter.name)

/-- A binding with the type of the first definition of its name. -/
def typedBy (definitions : ParameterSet) (binding : Parameter) : Parameter :=
  { binding with
    type := ((find definitions binding.name).map Parameter.type).getD binding.type }

theorem mem_firsts_iff {parameter : Parameter} :
    parameter ∈ firsts definitions ↔ find definitions parameter.name = some parameter := by
  induction definitions with
  | nil => simp [firsts, find]
  | cons definition definitions ih =>
      rw [firsts, List.mem_cons, List.mem_filter, ih, decide_eq_true_eq, find, find,
        List.find?_cons]
      by_cases same : definition.name = parameter.name
      · simp [same, eq_comm]
      · have other : parameter ≠ definition := fun equal => same (equal ▸ rfl)
        simp [same, other, Ne.symm same]

theorem mem_names_firsts_iff : name ∈ names (firsts definitions) ↔ name ∈ names definitions := by
  simp only [names, List.mem_map, mem_firsts_iff]
  constructor
  · rintro ⟨parameter, found, named⟩
    exact ⟨parameter, List.mem_of_find?_eq_some found, named⟩
  · intro member
    rw [← defines_iff, defines, Option.isSome_iff_exists] at member
    rcases member with ⟨parameter, found⟩
    have named : parameter.name = name := by simpa using List.find?_some found
    exact ⟨parameter, named.symm ▸ found, named⟩

theorem nodup_names_firsts (definitions : ParameterSet) : (names (firsts definitions)).Nodup := by
  induction definitions with
  | nil => exact List.nodup_nil
  | cons definition definitions ih =>
      rw [firsts, names, List.map_cons, List.nodup_cons]
      exact ⟨by simp, List.Nodup.sublist (List.filter_sublist.map _) ih⟩

theorem retyped_eq (bindings definitions : ParameterSet) :
    retyped definitions bindings =
      (bindings.filter fun binding => binding.name ∈ names definitions).map
        (typedBy definitions) := by
  induction bindings with
  | nil => rfl
  | cons binding bindings ih =>
      rw [retyped] at ih ⊢
      rw [List.filterMap_cons]
      cases found : find definitions binding.name with
      | none =>
          have undefined := find_eq_none_iff.mp found
          rw [List.filter_cons_of_neg (by simpa using undefined)]
          exact ih
      | some definition =>
          have defined : binding.name ∈ names definitions := by
            rw [← defines_iff_mem_names, defines, found]
            rfl
          rw [List.filter_cons_of_pos (by simpa using defined), List.map_cons, ← ih]
          simp [typedBy, found]

theorem foldl_complete_eq (bindings definitions : ParameterSet) :
    definitions.foldl complete bindings =
      bindings ++ (firsts definitions).filter fun definition =>
        definition.name ∉ names bindings := by
  induction definitions generalizing bindings with
  | nil => simp [firsts]
  | cons definition definitions ih =>
      rw [List.foldl_cons, firsts, complete, ih]
      split
      · next bound =>
          rw [defines_iff_mem_names] at bound
          rw [List.filter_cons_of_neg (by simpa using bound), List.filter_filter]
          congr 1
          apply List.filter_congr
          intro other _
          by_cases old : other.name ∈ names bindings
          · simp [old]
          · have different : other.name ≠ definition.name := fun same => old (same ▸ bound)
            simp [old, different]
      · next unbound =>
          rw [defines_iff_mem_names] at unbound
          rw [List.filter_cons_of_pos (by simpa using unbound), List.filter_filter,
            List.append_assoc, List.singleton_append]
          congr 2
          apply List.filter_congr
          intro other _
          simp [names, not_or]

theorem names_typedBy (definitions : ParameterSet) (kept : ParameterSet) :
    names (kept.map (typedBy definitions)) = names kept := by
  rw [names, List.map_map]
  rfl

theorem matched_eq (bindings definitions : ParameterSet) :
    matched bindings definitions =
      (bindings.filter fun binding => binding.name ∈ names definitions).map
          (typedBy definitions) ++
        (firsts definitions).filter fun definition => definition.name ∉ names bindings := by
  have completes : matched bindings definitions =
      definitions.foldl complete (retyped definitions bindings) := rfl
  rw [completes, foldl_complete_eq, retyped_eq, names_typedBy]
  congr 1
  apply List.filter_congr
  intro definition member
  have defined : definition.name ∈ names definitions :=
    mem_names_firsts_iff.mp (List.mem_map_of_mem member)
  rw [decide_eq_decide, not_iff_not]
  simp only [names, List.mem_map, List.mem_filter, decide_eq_true_eq] at defined ⊢
  constructor
  · rintro ⟨binding, ⟨bound, _⟩, named⟩
    exact ⟨binding, bound, named⟩
  · rintro ⟨binding, bound, named⟩
    exact ⟨binding, ⟨bound, named ▸ defined⟩, named⟩

theorem nodup_names_matched (distinct : (names bindings).Nodup) (definitions : ParameterSet) :
    (names (matched bindings definitions)).Nodup := by
  rw [matched_eq, names, List.map_append, List.nodup_append']
  refine ⟨?_, ?_, ?_⟩
  · change (names (List.map _ _)).Nodup
    rw [names_typedBy]
    exact distinct.sublist (List.filter_sublist.map _)
  · exact (nodup_names_firsts definitions).sublist (List.filter_sublist.map _)
  · change (names (List.map _ _)).Disjoint _
    rw [names_typedBy]
    intro name kept added
    simp only [names, List.mem_map, List.mem_filter, decide_eq_true_eq] at kept added
    rcases kept with ⟨binding, ⟨bound, _⟩, rfl⟩
    rcases added with ⟨definition, ⟨_, unbound⟩, same⟩
    exact unbound ⟨binding, bound, same.symm⟩

/-- What bindings are brought in step to. -/
structure IsMatch (bindings definitions result : ParameterSet) : Prop where
  /-- Defined bindings keep their order and values; after them come the definitions that are not
  bound, as they are. -/
  parts : result =
    (bindings.filter fun binding => binding.name ∈ names definitions).map (typedBy definitions) ++
      (firsts definitions).filter fun definition => definition.name ∉ names bindings
  mem_names : ∀ name, name ∈ names result ↔ name ∈ names definitions
  fixed : matched result definitions = result
  distinct : (names bindings).Nodup → (names definitions).Nodup →
    (names result).Nodup ∧ (names result).Perm (names definitions)

/-- Matching keeps what is defined and adds what is not bound, and matching again changes
nothing. -/
theorem isMatch_matched (bindings definitions : ParameterSet) :
    IsMatch bindings definitions (matched bindings definitions) where
  parts := matched_eq bindings definitions
  mem_names := fun _ => (inStep_matched bindings definitions).mem_names_iff
  fixed := (inStep_matched bindings definitions).matched_eq
  distinct := by
    intro bindingsDistinct definitionsDistinct
    have distinct := nodup_names_matched bindingsDistinct definitions
    refine ⟨distinct, ?_⟩
    rw [List.perm_ext_iff_of_nodup distinct definitionsDistinct]
    exact fun _ => (inStep_matched bindings definitions).mem_names_iff

/-- Bindings of which one is not defined and one has another type, and a definition without one. -/
def strayBindings : ParameterSet :=
  [⟨"loud", .string, "true"⟩, ⟨"stale", .int, "3"⟩]

def soundDefinitions : ParameterSet :=
  [⟨"count", .int, "0"⟩, ⟨"loud", .bool, "false"⟩]

theorem isMatch_matched_stray :
    matched strayBindings soundDefinitions = [⟨"loud", .bool, "true"⟩, ⟨"count", .int, "0"⟩] ∧
      (names (matched strayBindings soundDefinitions)).Nodup ∧
      (names (matched strayBindings soundDefinitions)).Perm (names soundDefinitions) :=
  ⟨by decide, (isMatch_matched strayBindings soundDefinitions).distinct (by decide) (by decide)⟩

/-- A name may stand several times: all its bindings are kept, and its first definition counts. -/
example :
    matched [⟨"a", .int, "1"⟩, ⟨"a", .int, "2"⟩]
        [⟨"b", .int, "3"⟩, ⟨"a", .bool, "4"⟩, ⟨"b", .float, "5"⟩, ⟨"a", .string, "6"⟩] =
      [⟨"a", .bool, "1"⟩, ⟨"a", .bool, "2"⟩, ⟨"b", .int, "3"⟩] := by
  decide

/-! ## Values -/

theorem map_assign {α : Type} (name value : String) {part : Parameter → α}
    (kept : ∀ parameter : Parameter, part { parameter with value } = part parameter)
    (parameters : ParameterSet) : (assign name value parameters).map part = parameters.map part := by
  induction parameters with
  | nil => rfl
  | cons parameter parameters ih =>
      rw [assign]
      split
      · simp only [List.map_cons, kept]
      · simp only [List.map_cons, ih]

theorem defines_assign (name value : String) (parameters : ParameterSet) (other : String) :
    defines (assign name value parameters) other = defines parameters other := by
  have same : names (assign name value parameters) = names parameters :=
    map_assign name value (fun _ => rfl) parameters
  rw [Bool.eq_iff_iff, defines_iff_mem_names, defines_iff_mem_names, same]

theorem find_assign (name value : String) (parameters : ParameterSet) (other : String) :
    (find (assign name value parameters) other).map Parameter.type =
      (find parameters other).map Parameter.type := by
  induction parameters with
  | nil => rfl
  | cons parameter parameters ih =>
      rw [assign]
      split
      · simp only [find, List.find?_cons]
        cases decide (parameter.name = other) <;> rfl
      · simp only [find, List.find?_cons] at ih ⊢
        cases decide (parameter.name = other)
        · exact ih
        · rfl

theorem InStep.assign_binding (inStep : InStep bindings definitions) (name value : String) :
    InStep (assign name value bindings) definitions where
  defined := by
    intro binding member
    let part (parameter : Parameter) : String × ParameterType := (parameter.name, parameter.type)
    have parts : (assign name value bindings).map part = bindings.map part :=
      map_assign name value (fun _ => rfl) bindings
    have part := List.mem_map_of_mem (f := part) member
    rw [parts] at part
    rcases List.mem_map.mp part with ⟨old, oldMember, same⟩
    rw [Prod.mk.injEq] at same
    rw [← same.1, ← same.2]
    exact inStep.defined old oldMember
  bound := fun definition member => by
    rw [defines_assign]
    exact inStep.bound definition member

theorem InStep.assign_definition (inStep : InStep bindings definitions) (name value : String) :
    InStep bindings (assign name value definitions) where
  defined := by
    intro binding member
    rcases inStep.defined binding member with ⟨definition, found, type⟩
    have types := find_assign name value definitions binding.name
    rw [found, Option.map_some] at types
    rcases Option.map_eq_some_iff.mp types with ⟨changed, changedFound, same⟩
    exact ⟨changed, changedFound, same.trans type⟩
  bound := by
    intro definition member
    have names : (assign name value definitions).map Parameter.name =
        definitions.map Parameter.name := map_assign name value (fun _ => rfl) definitions
    have named := List.mem_map_of_mem (f := Parameter.name) member
    rw [names] at named
    rcases List.mem_map.mp named with ⟨old, oldMember, same⟩
    exact same ▸ inStep.bound old oldMember

/-! ## One definition more or less -/

variable {parameter : Parameter}

theorem add_eq_ok_iff {extended : ParameterSet} :
    add definitions parameter = .ok extended ↔
      parameter.name ≠ "" ∧ parameter.name ∉ names definitions ∧
        extended = definitions ++ [parameter] := by
  rw [add]
  split
  · next empty => simp [empty]
  split
  · next empty defined =>
      rw [defines_iff_mem_names] at defined
      simp [defined]
  · next named undefined =>
      rw [defines_iff_mem_names] at undefined
      simp [named, undefined, eq_comm]

theorem find_concat_of_mem (member : name ∈ names definitions) (parameter : Parameter) :
    find (definitions ++ [parameter]) name = find definitions name := by
  have defined : (find definitions name).isSome := defines_iff_mem_names.mpr member
  rw [find] at defined ⊢
  rw [List.find?_append, Option.or_of_isSome defined, find]

theorem find_concat_self (fresh : parameter.name ∉ names definitions) :
    find (definitions ++ [parameter]) parameter.name = some parameter := by
  have missing := find_eq_none_iff.mpr fresh
  rw [find] at missing ⊢
  rw [List.find?_append, missing]
  simp

theorem without_concat_self (fresh : parameter.name ∉ names definitions) :
    without (definitions ++ [parameter]) parameter.name = definitions := by
  have others : ∀ definition ∈ definitions, ¬decide (definition.name = parameter.name) = true := by
    intro definition member same
    rw [decide_eq_true_eq] at same
    exact fresh (same ▸ List.mem_map_of_mem member)
  rw [without, List.eraseP_append_right _ others]
  simp

/-- A definition that is added is bound last. -/
theorem InStep.matched_concat (inStep : InStep bindings definitions)
    (fresh : parameter.name ∉ names definitions) :
    matched bindings (definitions ++ [parameter]) = bindings ++ [parameter] := by
  have free : ¬defines bindings parameter.name = true := by
    rw [defines_iff_mem_names, inStep.mem_names_iff]
    exact fresh
  have same : retyped (definitions ++ [parameter]) bindings = bindings := by
    apply retyped_of_defined
    intro binding member
    rcases inStep.defined binding member with ⟨definition, found, type⟩
    have named : binding.name ∈ names definitions :=
      inStep.mem_names_iff.mp (List.mem_map_of_mem member)
    exact ⟨definition, by rw [find_concat_of_mem named, found], type⟩
  have completes : matched bindings (definitions ++ [parameter]) =
      (definitions ++ [parameter]).foldl complete bindings := by
    rw [matched, same]
    rfl
  rw [completes, List.foldl_append, foldl_complete_of_bound inStep.bound, List.foldl_cons,
    List.foldl_nil, complete, if_neg free]

/-- A binding that is not defined any more is dropped again. -/
theorem InStep.matched_of_concat (inStep : InStep bindings definitions)
    (fresh : parameter.name ∉ names definitions) :
    matched (bindings ++ [parameter]) definitions = bindings := by
  have same : retyped definitions (bindings ++ [parameter]) = bindings := by
    have stay := retyped_of_defined inStep.defined
    rw [retyped] at stay ⊢
    rw [List.filterMap_append, stay, List.filterMap_cons, find_eq_none_iff.mpr fresh]
    simp
  rw [matched, same]
  exact foldl_complete_of_bound inStep.bound

/-- The bindings that are defined, in their order and with their values. -/
def kept (definitions bindings : ParameterSet) : ParameterSet :=
  (bindings.filter fun binding => binding.name ∈ names definitions).map (typedBy definitions)

/-- The definitions that are not bound, the first one of each name. -/
def unbound (definitions bindings : ParameterSet) : ParameterSet :=
  (firsts definitions).filter fun definition => definition.name ∉ names bindings

/-- The bindings that are defined, and after them the definitions that are not bound. -/
def aligned (definitions bindings : ParameterSet) : ParameterSet :=
  kept definitions bindings ++ unbound definitions bindings

theorem matched_eq_aligned (bindings definitions : ParameterSet) :
    matched bindings definitions = aligned definitions bindings :=
  matched_eq bindings definitions

/-- Where definitions are taken away, nothing is bound on top. -/
theorem InStep.matched_of_subset {fewer : ParameterSet} (inStep : InStep bindings definitions)
    (subset : fewer ⊆ definitions) : matched bindings fewer = kept fewer bindings := by
  have none : unbound fewer bindings = [] := by
    rw [unbound, List.filter_eq_nil_iff]
    intro definition member
    have defined := mem_names_firsts_iff.mp (List.mem_map_of_mem member)
    rcases List.mem_map.mp defined with ⟨other, otherMember, same⟩
    have bound := defines_iff_mem_names.mp (inStep.bound other (subset otherMember))
    rw [same] at bound
    simpa using bound
  rw [matched_eq_aligned, aligned, none, List.append_nil]

theorem find_without_of_ne {other : String} (different : other ≠ name) :
    find (without definitions name) other = find definitions other := by
  induction definitions with
  | nil => rfl
  | cons definition definitions ih =>
      by_cases same : definition.name = name
      · have apart : ¬definition.name = other := fun equal => different (equal.symm.trans same)
        rw [without, List.eraseP_cons_of_pos (by simpa using same), find, find,
          List.find?_cons_of_neg (by simpa using apart)]
      · rw [without, List.eraseP_cons_of_neg (by simpa using same)]
        simp only [find, List.find?_cons] at ih ⊢
        rw [← ih]
        rfl

/-- Where a name is defined once, its bindings are dropped and all others stay. -/
theorem InStep.kept_without (inStep : InStep bindings definitions)
    (once : name ∉ names (without definitions name)) :
    kept (without definitions name) bindings = bindings.filter (·.name ≠ name) := by
  have stays : ∀ binding ∈ bindings,
      binding.name ∈ names (without definitions name) ↔ binding.name ≠ name := by
    intro binding member
    constructor
    · exact fun defined same => once (same ▸ defined)
    · intro different
      rcases inStep.defined binding member with ⟨definition, found, _⟩
      rw [← defines_iff_mem_names, defines, find_without_of_ne different, found]
      rfl
  have filtered : (bindings.filter fun binding => binding.name ∈ names (without definitions name)) =
      bindings.filter (·.name ≠ name) :=
    List.filter_congr fun binding member => decide_eq_decide.mpr (stays binding member)
  rw [kept, filtered]
  refine (List.map_congr_left fun binding member => ?_).trans (List.map_id _)
  rcases List.mem_filter.mp member with ⟨old, different⟩
  rw [decide_eq_true_eq] at different
  rw [typedBy, find_without_of_ne different, inStep.type_eq old]
  rfl

/-- Where a name is defined twice, its bindings stay, with the type of the definition that is left. -/
example :
    kept (without [⟨"a", .int, "1"⟩, ⟨"b", .int, "2"⟩, ⟨"a", .bool, "3"⟩] "a")
        [⟨"a", .int, "7"⟩, ⟨"b", .int, "8"⟩] =
      [⟨"a", .bool, "7"⟩, ⟨"b", .int, "8"⟩] := by
  decide

end BehaviorTree.ParameterSet
