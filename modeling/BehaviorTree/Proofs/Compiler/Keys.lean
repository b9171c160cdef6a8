import BehaviorTree.Compiler.KeyCheck
import BehaviorTree.Proofs.Compiler.NameFaults
import BehaviorTree.Proofs.Compiler.Sweeps

/-!
# The issues of a set of access keys

A set compiles if its names are present and distinct and its limits are above zero.  There is one
exception: an interval is refused for being at most zero, and one that is no number at all is neither
above zero nor at most zero.
-/

namespace BehaviorTree

open BehaviorTree.Number

/-! ## Limits -/

theorem Number.Binary.isAtMostZero_iff {format : Format} {value : Binary format} :
    value.isAtMostZero = true ↔ value.isPositive = false ∧ value ≠ .nan := by
  cases value with
  | nan => simp [isAtMostZero]
  | infinity negative => simp [isAtMostZero, isPositive]
  | finite negative place =>
      cases negative with
      | true => simp [isAtMostZero, isPositive]
      | false =>
          simp only [isAtMostZero, isPositive, Bool.false_or, Bool.not_false, Bool.true_and,
            decide_eq_true_eq, decide_eq_false_iff_not, ne_eq, reduceCtorEq, not_false_eq_true,
            and_true]
          omega

namespace AccessKey

/-- Whether the limit of a key is above zero. -/
def isPositive : AccessKey → Bool
  | counterLimit _ maxAccessCount => 0 < maxAccessCount
  | timeLimit _ interval => interval.isPositive

/-- Whether the limit of a key is a number. -/
def isNumber : AccessKey → Bool
  | counterLimit _ _ => true
  | timeLimit _ interval => interval ≠ .nan

end AccessKey

namespace Compiler

/-- The issue with the limit of a key. -/
def limitFault (set : String) : AccessKey → Issue
  | .counterLimit name maxAccessCount => .invalidMaxAccessCount set name maxAccessCount
  | .timeLimit name interval => .invalidTimeInterval set name interval

/-- What is wrong with the names and the limits of a set. -/
def keyFaults (set : AccessKeySet) : List Issue :=
  (set.names.filter (· = "")).map (fun _ => .emptyAccessKeyName set.name) ++
    (repeatedNames set.names).map
      (fun name => .duplicateAccessKey set.name name (set.names.count name)) ++
    (set.keys.filter fun key => key.isPositive = false ∧ key.isNumber).map (limitFault set.name)

theorem keyLimitIssues_eq (set : String) (key : AccessKey) :
    keyLimitIssues set key =
      if key.isPositive = false ∧ key.isNumber then [limitFault set key] else [] := by
  cases key with
  | counterLimit name maxAccessCount =>
      by_cases above : 0 < maxAccessCount
      · have notBelow : ¬maxAccessCount ≤ 0 := Int32.not_le.mpr above
        simp [keyLimitIssues, AccessKey.isPositive, above, notBelow]
      · have below : maxAccessCount ≤ 0 := Int32.not_lt.mp above
        simp [keyLimitIssues, limitFault, AccessKey.isPositive, AccessKey.isNumber, above, below]
  | timeLimit name interval =>
      simp [keyLimitIssues, limitFault, AccessKey.isPositive, AccessKey.isNumber,
        Binary.isAtMostZero_iff]

theorem keyNameIssues_eq (set : String) (names : List String) (name : String) (position : Nat) :
    keyNameIssues set names name position =
      ((nameFault? names name position).map
        (NameFault.issue (.emptyAccessKeyName set) (.duplicateAccessKey set name))).toList := by
  rw [keyNameIssues]
  rcases nameFault? names name position with _ | _ | _ <;> rfl

/-! ## The report -/

theorem issues_perm_keyFaults (set : AccessKeySet) : set.issues.Perm (keyFaults set) := by
  have names := item_reports_perm AccessKey.name (fun name => NameFault.issue
    (Issue.emptyAccessKeyName set.name) (Issue.duplicateAccessKey set.name name)) set.keys
  have limits : (set.keys.zipIdx.flatMap fun entry => keyLimitIssues set.name entry.1) =
      (set.keys.filter fun key => key.isPositive = false ∧ key.isNumber).map
        (limitFault set.name) := by
    rw [flatMap_zipIdx_fst, funext (keyLimitIssues_eq set.name), flatMap_ite]
  have sweep := List.flatMap_append_perm set.keys.zipIdx
    (fun entry => keyNameIssues set.name set.names entry.1.name entry.2)
    (fun entry => keyLimitIssues set.name entry.1)
  rw [limits] at sweep
  apply sweep.symm.trans
  apply List.Perm.append_right
  simp only [keyNameIssues_eq]
  exact names

theorem severity_of_mem_keyFaults {set : AccessKeySet} {issue : Issue}
    (member : issue ∈ keyFaults set) : issue.severity = .error := by
  simp only [keyFaults, List.mem_append, List.mem_map] at member
  rcases member with (⟨_, _, rfl⟩ | ⟨_, _, rfl⟩) | ⟨key, _, rfl⟩
  · rfl
  · rfl
  · cases key <;> rfl

theorem keyFaults_eq_nil_iff {set : AccessKeySet} :
    keyFaults set = [] ↔ ("" ∉ set.names ∧ set.names.Nodup) ∧
      ∀ key ∈ set.keys, key.isPositive = true ∨ key.isNumber = false := by
  have named : set.names.filter (· = "") = [] ↔ "" ∉ set.names := by
    simp only [List.filter_eq_nil_iff, decide_eq_true_eq]
    exact ⟨fun each member => each "" member rfl, fun absent _ member empty => absent (empty ▸ member)⟩
  have limited : (set.keys.filter fun key => key.isPositive = false ∧ key.isNumber) = [] ↔
      ∀ key ∈ set.keys, key.isPositive = true ∨ key.isNumber = false := by
    simp only [List.filter_eq_nil_iff, decide_eq_true_eq, not_and_or, Bool.not_eq_false,
      Bool.not_eq_true]
  rw [keyFaults, List.append_eq_nil_iff, List.append_eq_nil_iff, List.map_eq_nil_iff,
    List.map_eq_nil_iff, List.map_eq_nil_iff, named, limited]
  apply and_congr_left'
  exact and_congr_right fun nonempty => repeatedNames_eq_nil_iff nonempty

/-- A pass that finds only errors succeeds if it finds nothing. -/
theorem passed_iff_of_errors {options : Options} {issues : List Issue}
    (errors : ∀ issue ∈ issues, issue.severity = .error) :
    (Report.ofIssues options issues).passed = true ↔ issues = [] := by
  rw [Report.ofIssues, List.all_eq_true, List.eq_nil_iff_forall_not_mem]
  apply forall_congr'
  intro issue
  apply imp_congr_right
  intro member
  simp [errors issue member]

/-- What a report says about a set of access keys. -/
structure KeysReported (set : AccessKeySet) (report : Report) : Prop where
  /-- The names are present and distinct, and no limit that is a number is zero or below. -/
  passed_iff : report.passed = true ↔ ("" ∉ set.names ∧ set.names.Nodup) ∧
    ∀ key ∈ set.keys, key.isPositive = true ∨ key.isNumber = false
  /-- There is one issue for each empty name, for each repeated name, and for each such limit. -/
  issues_perm : report.issues.Perm (keyFaults set)

/-- Sets of access keys are compiled alike with all options, since there are no warnings. -/
theorem compile_keys_exact (set : AccessKeySet) (options : Options) :
    KeysReported set (set.compile options) where
  passed_iff := by
    have same := issues_perm_keyFaults set
    have errors : ∀ issue ∈ set.issues, issue.severity = .error :=
      fun _ member => severity_of_mem_keyFaults (same.subset member)
    rw [AccessKeySet.compile, passed_iff_of_errors errors, ← keyFaults_eq_nil_iff,
      ← List.perm_nil, ← List.perm_nil]
    exact ⟨same.symm.trans, same.trans⟩
  issues_perm := issues_perm_keyFaults set

/-- A set with an interval that is no number. -/
def timelessKeys : AccessKeySet :=
  ⟨"Doors", [.timeLimit "Front" .nan]⟩

theorem compile_keys_exact_timeless :
    (timelessKeys.compile {}).passed = true ∧ (timelessKeys.compile {}).issues = [] ∧
      ¬∀ key ∈ timelessKeys.keys, key.isPositive = true := by
  have reported := compile_keys_exact timelessKeys {}
  refine ⟨reported.passed_iff.mpr (by decide), ?_, by decide⟩
  exact List.perm_nil.mp (reported.issues_perm.trans (.of_eq (by decide)))

end Compiler

end BehaviorTree
