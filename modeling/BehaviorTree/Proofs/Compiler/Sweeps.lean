import Mathlib.Data.List.Perm.Basic

/-!
# What a sweep collects

A pass goes over a list once and appends what it finds at each item.  What it finds of one kind can be
listed on its own, without regard to the rest and to the order in which the kinds are looked for.
-/

namespace BehaviorTree.Compiler

variable {α β : Type}

theorem flatMap_ite (holds : α → Prop) [DecidablePred holds] (issue : α → β) (items : List α) :
    (items.flatMap fun item => if holds item then [issue item] else []) =
      (items.filter fun item => holds item).map issue := by
  induction items with
  | nil => rfl
  | cons item items ih =>
      rw [List.flatMap_cons, List.filter_cons, ih]
      by_cases known : holds item <;> simp [known]

theorem flatMap_zipIdx_fst (issues : α → List β) (items : List α) :
    (items.zipIdx.flatMap fun entry => issues entry.1) = items.flatMap issues := by
  conv_rhs => rw [← List.zipIdx_map_fst 0 items, List.flatMap_map]

/-- What is collected in one loop can be collected in four. -/
theorem flatMap_append₄_perm (first second third fourth : α → List β) (items : List α) :
    (items.flatMap fun item => first item ++ second item ++ third item ++ fourth item).Perm
      (items.flatMap first ++ items.flatMap second ++ items.flatMap third ++
        items.flatMap fourth) := by
  have two := List.flatMap_append_perm items first second
  have three := List.flatMap_append_perm items (fun item => first item ++ second item) third
  have four := List.flatMap_append_perm items
    (fun item => first item ++ second item ++ third item) fourth
  exact four.symm.trans ((three.symm.trans (two.symm.append_right _)).append_right _)

theorem filterMap_ite (holds : α → Bool) (issue : α → β) (items : List α) :
    (items.filterMap fun item => if holds item then some (issue item) else none) =
      (items.filter holds).map issue := by
  rw [← List.filterMap_eq_map, List.filterMap_filter]
  rfl

/-! ## Positions -/

theorem map_fst_filter_zipIdx_lt (items : List α) (start count : Nat) :
    ((items.zipIdx start).filter fun entry => entry.2 < start + count).map Prod.fst =
      items.take count := by
  induction items generalizing start count with
  | nil => simp
  | cons item items ih =>
      rw [List.zipIdx_cons]
      cases count with
      | zero =>
          have none : ∀ entry ∈ (item, start) :: items.zipIdx (start + 1),
              ¬decide (entry.2 < start + 0) = true := by
            intro entry member
            have behind := List.le_snd_of_mem_zipIdx (List.zipIdx_cons ▸ member)
            simpa using behind
          rw [List.filter_eq_nil_iff.mpr none]
          rfl
      | succ count =>
          have later := ih (start + 1) count
          rw [List.filter_cons_of_pos (by simp), List.map_cons, List.take_succ_cons, ← later]
          congr 3
          funext entry
          congr 2
          omega

/-- Where nothing is left out, the last item becomes the last result. -/
theorem filterMap_dropLast {find : α → Option β} {items : List α}
    (found : ∀ item ∈ items, (find item).isSome = true) :
    items.dropLast.filterMap find = (items.filterMap find).dropLast := by
  rcases List.eq_nil_or_concat items with rfl | ⟨front, last, rfl⟩
  · rfl
  · have here : (find last).isSome = true := found last (by simp)
    rcases Option.isSome_iff_exists.mp here with ⟨result, known⟩
    simp [known]

end BehaviorTree.Compiler
