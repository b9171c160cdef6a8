import BehaviorTree.Compiler.NameFault
import Mathlib.Data.List.Dedup
import Mathlib.Data.List.Perm.Basic

/-!
# The faults of a list of names

A check that goes through a list of names finds every empty one, and of the others each that is
repeated, once and with the number of its places.
-/

namespace BehaviorTree.Compiler

/-- The names that stand more than once, each once. -/
def repeatedNames (names : List String) : List String :=
  names.dedup.filter fun name => name ≠ "" ∧ 1 < names.count name

/-- The issue with a fault, where there is one for each of its kinds. -/
def NameFault.issue {Issue : Type} (empty : Issue) (repeated : Nat → Issue) : NameFault → Issue
  | .empty => empty
  | .repeated count => repeated count

variable {names : List String} {name : String}

theorem mem_repeatedNames_iff :
    name ∈ repeatedNames names ↔ name ≠ "" ∧ 1 < names.count name := by
  simp only [repeatedNames, List.mem_filter, List.mem_dedup, decide_eq_true_eq]
  refine and_iff_right_of_imp fun repeated => ?_
  exact List.count_pos_iff.mp (Nat.zero_lt_of_lt repeated.2)

theorem repeatedNames_eq_nil_iff (named : "" ∉ names) : repeatedNames names = [] ↔ names.Nodup := by
  simp only [List.eq_nil_iff_forall_not_mem, mem_repeatedNames_iff, List.nodup_iff_count_le_one]
  constructor
  · intro none name
    by_cases member : name ∈ names
    · have nonempty : name ≠ "" := fun empty => named (empty ▸ member)
      have notSeveral : ¬1 < names.count name := fun several => none name ⟨nonempty, several⟩
      omega
    · simp [List.count_eq_zero_of_not_mem member]
  · rintro atMostOne name ⟨_, several⟩
    have one := atMostOne name
    omega

theorem nodup_repeatedNames (names : List String) : (repeatedNames names).Nodup :=
  (List.nodup_dedup names).filter _

/-! ## Places -/

/-- Whether an entry is the first place of a name that is repeated. -/
def isRepeated (names : List String) (entry : String × Nat) : Bool :=
  entry.1 ≠ "" ∧ names.idxOf entry.1 = entry.2 ∧ 1 < names.count entry.1

/-- Every repeated name has one first place. -/
theorem firstPlaces_perm (names : List String) :
    ((names.zipIdx.filter (isRepeated names)).map Prod.fst).Perm (repeatedNames names) := by
  refine (List.perm_ext_iff_of_nodup ?_ (nodup_repeatedNames names)).mpr fun name => ?_
  · have places : (names.zipIdx.map Prod.snd).Nodup := by
      rw [List.zipIdx_map_snd]
      exact List.nodup_range'
    refine List.Nodup.map_on ?_ ((List.Nodup.of_map _ places).filter _)
    rintro ⟨first, position⟩ firstMem ⟨second, other⟩ secondMem (rfl : first = second)
    simp only [isRepeated, List.mem_filter, decide_eq_true_eq] at firstMem secondMem
    rw [← firstMem.2.2.1, ← secondMem.2.2.1]
  · rw [mem_repeatedNames_iff, List.mem_map]
    constructor
    · rintro ⟨⟨_, position⟩, member, rfl⟩
      simp only [isRepeated, List.mem_filter, decide_eq_true_eq] at member
      exact ⟨member.2.1, member.2.2.2⟩
    · rintro ⟨nonempty, several⟩
      have found : names[names.idxOf name]? = some name :=
        List.getElem?_idxOf (List.count_pos_iff.mp (Nat.zero_lt_of_lt several))
      refine ⟨(name, names.idxOf name), List.mem_filter.mpr ⟨?_, ?_⟩, rfl⟩
      · exact List.mem_zipIdx_iff_getElem?.mpr found
      · simp [isRepeated, nonempty, several]

theorem nameFault?_eq (names : List String) (name : String) (position : Nat) :
    nameFault? names name position =
      if name = "" then some .empty
      else if isRepeated names (name, position) then some (.repeated (names.count name))
      else none := by
  rw [nameFault?]
  split
  · rfl
  · next nonempty => simp [isRepeated, nonempty]

/-- What a check reports about the names of a list: each empty name, and each repeated name once. -/
theorem reports_perm {Issue : Type} (report : String → NameFault → Issue) (names : List String) :
    (names.zipIdx.filterMap fun (name, position) =>
        (nameFault? names name position).map (report name)).Perm
      ((names.filter (· = "")).map (fun name => report name .empty) ++
        (repeatedNames names).map fun name => report name (.repeated (names.count name))) := by
  have empty : (names.zipIdx.filter (·.1 = "")).filterMap (fun (name, position) =>
      (nameFault? names name position).map (report name)) =
      (names.filter (· = "")).map fun name => report name .empty := by
    conv_rhs => rw [← List.zipIdx_map_fst 0 names, List.filter_map, List.map_map]
    rw [← List.filterMap_eq_map]
    apply List.filterMap_congr
    rintro ⟨name, position⟩ member
    simp only [List.mem_filter, decide_eq_true_eq] at member
    simp [nameFault?_eq, member.2]
  have others : (names.zipIdx.filter fun entry => !decide (entry.1 = "")).filterMap
      (fun (name, position) => (nameFault? names name position).map (report name)) =
      ((names.zipIdx.filter (isRepeated names)).map Prod.fst).map fun name =>
        report name (.repeated (names.count name)) := by
    rw [List.map_map, ← List.filterMap_eq_map, List.filterMap_filter, List.filterMap_filter]
    apply List.filterMap_congr
    rintro ⟨name, position⟩ _
    by_cases nonempty : name = ""
    · simp [nonempty, isRepeated]
    · by_cases repeated : isRepeated names (name, position) = true <;>
        simp [nameFault?_eq, nonempty, repeated]
  rw [← empty]
  refine ((List.filter_append_perm (·.1 = "") names.zipIdx).symm.filterMap _).trans ?_
  rw [List.filterMap_append, others]
  exact ((firstPlaces_perm names).map _).append_left _

/-- What a check reports about the names of items. -/
theorem item_reports_perm {Item Issue : Type} (nameOf : Item → String)
    (report : String → NameFault → Issue) (items : List Item) :
    (items.zipIdx.flatMap fun entry =>
        ((nameFault? (items.map nameOf) (nameOf entry.1) entry.2).map
          (report (nameOf entry.1))).toList).Perm
      (((items.map nameOf).filter (· = "")).map (fun name => report name .empty) ++
        (repeatedNames (items.map nameOf)).map fun name =>
          report name (.repeated ((items.map nameOf).count name))) := by
  have reports := reports_perm report (items.map nameOf)
  rw [List.filterMap_eq_flatMap_toList, List.zipIdx_map, List.flatMap_map] at reports
  exact reports

end BehaviorTree.Compiler
