import BehaviorTree.Json.Reader
import BehaviorTree.Proofs.Json.Scanning

/-!
# Values from their tokens

The tokens of a form are read as a value with the members of its objects in the order of their
names, unless the form is nested too deeply, holds a number that is out of range, or holds a text
whose escapes do not form characters.  Where it is skipped none of this matters.

The tokens of a value are those of its form.
-/

namespace BehaviorTree.Json

open BehaviorTree.Number

mutual

/-- The value with the members of every object in the order of their names. -/
def Value.sorted : Value → Value
  | .null => .null
  | .boolean value => .boolean value
  | .number numeral => .number numeral
  | .text content => .text content
  | .list items => .list (sortedItems items)
  | .object members => .object (sortedMembers [] members)

def sortedItems : List Value → List Value
  | [] => []
  | item :: items => item.sorted :: sortedItems items

/-- The members, sorted into others. -/
def sortedMembers (sorted : List (String × Value)) :
    List (String × Value) → List (String × Value)
  | [] => sorted
  | (name, value) :: members => sortedMembers (insertMember name value.sorted sorted) members

end

theorem sortedItems_eq_map (items : List Value) : sortedItems items = items.map Value.sorted := by
  induction items with
  | nil => rfl
  | cons item items ih => rw [sortedItems, ih, List.map_cons]

mutual

/-- Whether the value can be read inside `level` lists and objects. -/
def Value.isReadable (level : Nat) : Value → Bool
  | .null => true
  | .boolean _ => true
  | .number numeral => !numeral.overflows
  | .text _ => true
  | .list items => decide (level < deepestNesting) && readableItems (level + 1) items
  | .object members => decide (level < deepestNesting) && readableMembers (level + 1) members

def readableItems (level : Nat) : List Value → Bool
  | [] => true
  | item :: items => item.isReadable level && readableItems level items

def readableMembers (level : Nat) : List (String × Value) → Bool
  | [] => true
  | (_, value) :: members => value.isReadable level && readableMembers level members

end

mutual

/-- What is read from the form, or passed over: texts that form no characters count as empty. -/
def Form.value : Form → Value
  | .null => .null
  | .boolean value => .boolean value
  | .number numeral => .number numeral
  | .text content => .text (content.getD "")
  | .list items => .list (valuesOfItems items)
  | .object members => .object (valuesOfMembers [] members)

def valuesOfItems : List Form → List Value
  | [] => []
  | item :: items => item.value :: valuesOfItems items

/-- The members, sorted into others. -/
def valuesOfMembers (sorted : List (String × Value)) :
    List (Option String × Form) → List (String × Value)
  | [] => sorted
  | (name, value) :: members =>
      valuesOfMembers (insertMember (name.getD "") value.value sorted) members

end

mutual

/-- Whether the form can be read inside `level` lists and objects. -/
def Form.isReadable (level : Nat) : Form → Bool
  | .null => true
  | .boolean _ => true
  | .number numeral => !numeral.overflows
  | .text content => content.isSome
  | .list items => decide (level < deepestNesting) && areReadableItems (level + 1) items
  | .object members => decide (level < deepestNesting) && areReadableMembers (level + 1) members

def areReadableItems (level : Nat) : List Form → Bool
  | [] => true
  | item :: items => item.isReadable level && areReadableItems level items

def areReadableMembers (level : Nat) : List (Option String × Form) → Bool
  | [] => true
  | (name, value) :: members =>
      name.isSome && (value.isReadable level && areReadableMembers level members)

end

/-! ## The machine -/

variable (purpose : Purpose) (outer : Nat)

/-- Where the machine goes on after a token. -/
def resume (rest : List Token) : Progress → Except Failure (Value × List Token)
  | .complete value => .ok (value, rest)
  | .ongoing place stack => continueValue purpose outer place stack rest

theorem continueValue_cons (place : Place) (stack : List Frame) (token : Token)
    (rest : List Token) :
    continueValue purpose outer place stack (token :: rest) =
      (Progress.advance purpose outer stack place token).bind (resume purpose outer rest) := by
  rw [continueValue]
  cases Progress.advance purpose outer stack place token with
  | error failure => rfl
  | ok progress => cases progress <;> rfl

/-- The first token of a form does not end a list. -/
theorem continueValue_firstItem (stack : List Frame) (form : Form) (rest : List Token) :
    continueValue purpose outer .firstItem stack (form.tokens ++ rest) =
      continueValue purpose outer .value stack (form.tokens ++ rest) := by
  rcases form with _ | _ | _ | _ | (_ | _) | (_ | ⟨⟨_, _⟩, _⟩) <;> rfl

theorem enter_eq (place : Place) (frame : Frame) (stack : List Frame) :
    Progress.enter purpose outer place frame stack =
      if purpose = .skip ∨ outer + stack.length < deepestNesting then
        .ok (.ongoing place (frame :: stack))
      else .error .malformed := by
  rw [Progress.enter]
  cases purpose with
  | read =>
      by_cases shallow : outer + stack.length < deepestNesting
      · rw [if_neg (by simp [shallow]), if_pos (.inr shallow)]
      · rw [if_pos (by simpa using shallow), if_neg (by simpa using shallow)]
  | skip => rfl

theorem content_eq (content : Option String) :
    purpose.content content =
      if purpose = .skip ∨ content.isSome then .ok (content.getD "") else .error .malformed := by
  cases purpose <;> cases content <;> rfl

mutual

/-- The machine delivers a value, or fails where it cannot be taken. -/
theorem continueValue_tokens : ∀ (form : Form) (stack : List Frame) (rest : List Token),
    continueValue purpose outer .value stack (form.tokens ++ rest) =
      if purpose = .skip ∨ form.isReadable (outer + stack.length) then
        (Progress.deliver form.value stack).bind (resume purpose outer rest)
      else .error .malformed
  | .null, stack, rest => by
      rw [if_pos (.inr rfl)]
      exact continueValue_cons purpose outer .value stack .null rest
  | .boolean value, stack, rest => by
      rw [if_pos (.inr rfl)]
      exact continueValue_cons purpose outer .value stack (.boolean value) rest
  | .number numeral, stack, rest => by
      apply (continueValue_cons purpose outer .value stack (.number numeral) rest).trans
      cases purpose with
      | read =>
          simp only [Progress.advance, Progress.startValue, Form.isReadable, true_and, reduceCtorEq,
            false_or]
          by_cases overflows : numeral.overflows = true
          · simp only [overflows, ↓reduceIte, Bool.not_true, Bool.false_eq_true]
            rfl
          · simp only [overflows, ↓reduceIte, Bool.not_false, Bool.false_eq_true]
            rfl
      | skip => rfl
  | .text content, stack, rest => by
      apply (continueValue_cons purpose outer .value stack (.text content) rest).trans
      simp only [Progress.advance, Progress.startValue, content_eq, Form.isReadable]
      by_cases known : purpose = .skip ∨ content.isSome = true
      · simp only [known, ↓reduceIte]
        rfl
      · simp only [known, ↓reduceIte]
        rfl
  | .list [], stack, rest => by
      apply (continueValue_cons purpose outer .value stack .openList (.closeList :: rest)).trans
      simp only [Progress.advance, Progress.startValue, enter_eq, Form.isReadable, areReadableItems,
        Bool.and_true, decide_eq_true_eq]
      split
      · exact continueValue_cons purpose outer .firstItem (.list [] :: stack) .closeList rest
      · rfl
  | .list (item :: items), stack, rest => by
      rw [Form.tokens, List.cons_append, List.append_assoc, List.append_assoc,
        List.singleton_append, continueValue_cons]
      simp only [Progress.advance, Progress.startValue, enter_eq, Form.isReadable, areReadableItems,
        Bool.and_eq_true, decide_eq_true_eq, or_and_left]
      by_cases entered : purpose = .skip ∨ outer + stack.length < deepestNesting
      · rw [if_pos entered]
        change continueValue purpose outer .firstItem (.list [] :: stack) (item.tokens ++ _) = _
        rw [continueValue_firstItem, continueValue_tokens item]
        simp only [List.length_cons, ← Nat.add_assoc, entered, true_and]
        by_cases taken : purpose = .skip ∨ item.isReadable (outer + stack.length + 1) = true
        · simp only [taken, ↓reduceIte, true_and]
          exact continueValue_remainingItems items [item.value] stack rest
        · simp only [taken, false_and, ↓reduceIte]
      · simp only [entered, false_and, ↓reduceIte]
        rfl
  | .object [], stack, rest => by
      apply (continueValue_cons purpose outer .value stack .openObject
        (.closeObject :: rest)).trans
      simp only [Progress.advance, Progress.startValue, enter_eq, Form.isReadable,
        areReadableMembers, Bool.and_true, decide_eq_true_eq]
      split
      · exact continueValue_cons purpose outer .firstName (.object [] :: stack) .closeObject rest
      · rfl
  | .object ((name, value) :: members), stack, rest => by
      rw [Form.tokens, List.cons_append, List.cons_append, List.cons_append, List.append_assoc,
        List.append_assoc, List.singleton_append, continueValue_cons]
      simp only [Progress.advance, Progress.startValue, enter_eq, Form.isReadable,
        areReadableMembers, Bool.and_eq_true, decide_eq_true_eq, or_and_left]
      by_cases entered : purpose = .skip ∨ outer + stack.length < deepestNesting
      · rw [if_pos entered]
        change continueValue purpose outer .firstName (.object [] :: stack)
          (.text name :: .colon :: (value.tokens ++ _)) = _
        rw [continueValue_member name value .firstName (.inl rfl)]
        simp only [entered, true_and]
        by_cases taken : (purpose = .skip ∨ name.isSome = true) ∧
            (purpose = .skip ∨ value.isReadable (outer + stack.length + 1) = true)
        · simp only [taken, and_self, ↓reduceIte, true_and]
          exact continueValue_remainingMembers members _ stack rest
        · rw [if_neg taken, if_neg fun all => taken ⟨all.1, all.2.1⟩]
      · simp only [entered, false_and, ↓reduceIte]
        rfl

/-- A member is taken into the object around it. -/
theorem continueValue_member (name : Option String) (value : Form) (place : Place)
    (named : place = .firstName ∨ place = .name) (read : List (String × Value)) (stack : List Frame)
    (rest : List Token) :
    continueValue purpose outer place (.object read :: stack)
        (.text name :: .colon :: (value.tokens ++ rest)) =
      if (purpose = .skip ∨ name.isSome) ∧
          (purpose = .skip ∨ value.isReadable (outer + stack.length + 1)) then
        continueValue purpose outer .afterMember
          (.object (insertMember (name.getD "") value.value read) :: stack) rest
      else .error .malformed := by
  have advanced : Progress.advance purpose outer (.object read :: stack) place (.text name) =
      Progress.startMember purpose (.object read :: stack) (.text name) := by
    rcases named with rfl | rfl <;> rfl
  rw [continueValue_cons, advanced, Progress.startMember, content_eq]
  by_cases known : purpose = .skip ∨ name.isSome = true
  · simp only [known, ↓reduceIte, true_and]
    change continueValue purpose outer .value (.member read (name.getD "") :: stack)
      (value.tokens ++ rest) = _
    rw [continueValue_tokens value]
    simp only [List.length_cons, ← Nat.add_assoc]
    rfl
  · simp only [known, ↓reduceIte, false_and]
    rfl

theorem continueValue_remainingItems : ∀ (items : List Form) (read : List Value) (stack : List Frame)
    (rest : List Token),
    continueValue purpose outer .afterItem (.list read :: stack)
        (tokensOfItems items ++ (.closeList :: rest)) =
      if purpose = .skip ∨ areReadableItems (outer + stack.length + 1) items then
        (Progress.deliver (.list (read.reverse ++ valuesOfItems items)) stack).bind
          (resume purpose outer rest)
      else .error .malformed
  | [], read, stack, rest => by
      rw [if_pos (.inr rfl), valuesOfItems, List.append_nil]
      exact continueValue_cons purpose outer .afterItem (.list read :: stack) .closeList rest
  | item :: items, read, stack, rest => by
      rw [tokensOfItems, List.cons_append, List.append_assoc, continueValue_cons]
      change continueValue purpose outer .value (.list read :: stack) (item.tokens ++ _) = _
      rw [continueValue_tokens item]
      simp only [List.length_cons, ← Nat.add_assoc, areReadableItems, Bool.and_eq_true, or_and_left]
      by_cases taken : purpose = .skip ∨ item.isReadable (outer + stack.length + 1) = true
      · simp only [taken, ↓reduceIte, true_and]
        change continueValue purpose outer .afterItem (.list (item.value :: read) :: stack) _ = _
        rw [continueValue_remainingItems items, valuesOfItems, List.reverse_cons, List.append_assoc,
          List.singleton_append]
      · simp only [taken, false_and, ↓reduceIte]

theorem continueValue_remainingMembers : ∀ (members : List (Option String × Form))
    (read : List (String × Value)) (stack : List Frame) (rest : List Token),
    continueValue purpose outer .afterMember (.object read :: stack)
        (tokensOfMembers members ++ (.closeObject :: rest)) =
      if purpose = .skip ∨ areReadableMembers (outer + stack.length + 1) members then
        (Progress.deliver (.object (valuesOfMembers read members)) stack).bind
          (resume purpose outer rest)
      else .error .malformed
  | [], read, stack, rest => by
      rw [if_pos (.inr rfl)]
      exact continueValue_cons purpose outer .afterMember (.object read :: stack) .closeObject rest
  | (name, value) :: members, read, stack, rest => by
      rw [tokensOfMembers, List.cons_append, List.cons_append, List.cons_append,
        List.append_assoc, continueValue_cons]
      change continueValue purpose outer .name (.object read :: stack)
        (.text name :: .colon :: (value.tokens ++ _)) = _
      rw [continueValue_member name value .name (.inr rfl)]
      simp only [areReadableMembers, Bool.and_eq_true, or_and_left]
      by_cases taken : (purpose = .skip ∨ name.isSome = true) ∧
          (purpose = .skip ∨ value.isReadable (outer + stack.length + 1) = true)
      · simp only [taken, and_self, ↓reduceIte, true_and]
        rw [continueValue_remainingMembers members, valuesOfMembers]
      · rw [if_neg taken, if_neg fun all => taken ⟨all.1, all.2.1⟩]

end

/-- A form that stands at the front of the tokens is read, if it is readable. -/
theorem readValue_form (outer : Nat) (form : Form) (rest : List Token) :
    readValue outer (form.tokens ++ rest) =
      if form.isReadable outer then .ok (form.value, rest) else .error .malformed := by
  refine (continueValue_tokens .read outer form [] rest).trans ?_
  simp only [reduceCtorEq, false_or]
  rfl

/-- A form that stands at the front of the tokens is skipped, readable or not. -/
theorem skipValue_form (form : Form) (rest : List Token) :
    skipValue (form.tokens ++ rest) = .ok rest :=
  congrArg (Except.map Prod.snd) (continueValue_tokens .skip 0 form [] rest)

/-! ## Forms of values -/

mutual

theorem Value.value_form : ∀ value : Value, value.form.value = value.sorted
  | .null => rfl
  | .boolean _ => rfl
  | .number _ => rfl
  | .text _ => rfl
  | .list items => by rw [Value.form, Form.value, Value.sorted, valuesOfItems_forms items]
  | .object members => by
      rw [Value.form, Form.value, Value.sorted, valuesOfMembers_forms [] members]

theorem valuesOfItems_forms : ∀ items : List Value,
    valuesOfItems (formsOfItems items) = sortedItems items
  | [] => rfl
  | item :: items => by
      rw [formsOfItems, valuesOfItems, sortedItems, Value.value_form item, valuesOfItems_forms items]

theorem valuesOfMembers_forms (sorted : List (String × Value)) : ∀ members : List (String × Value),
    valuesOfMembers sorted (formsOfMembers members) = sortedMembers sorted members
  | [] => rfl
  | (name, value) :: members => by
      rw [formsOfMembers, valuesOfMembers, sortedMembers, Value.value_form value,
        valuesOfMembers_forms _ members, Option.getD_some]

end

mutual

theorem Value.isReadable_form : ∀ (value : Value) (level : Nat),
    value.form.isReadable level = value.isReadable level
  | .null, _ => rfl
  | .boolean _, _ => rfl
  | .number _, _ => rfl
  | .text _, _ => rfl
  | .list items, level => by
      rw [Value.form, Form.isReadable, Value.isReadable, areReadableItems_forms items]
  | .object members, level => by
      rw [Value.form, Form.isReadable, Value.isReadable, areReadableMembers_forms members]

theorem areReadableItems_forms : ∀ (items : List Value) (level : Nat),
    areReadableItems level (formsOfItems items) = readableItems level items
  | [], _ => rfl
  | item :: items, level => by
      rw [formsOfItems, areReadableItems, readableItems, Value.isReadable_form item,
        areReadableItems_forms items]

theorem areReadableMembers_forms : ∀ (members : List (String × Value)) (level : Nat),
    areReadableMembers level (formsOfMembers members) = readableMembers level members
  | [], _ => rfl
  | (name, value) :: members, level => by
      rw [formsOfMembers, areReadableMembers, readableMembers, Value.isReadable_form value,
        areReadableMembers_forms members, Option.isSome_some, Bool.true_and]

end

/-- A value that stands at the front of the tokens is read, if it is readable. -/
theorem readValue_tokens (outer : Nat) (value : Value) (rest : List Token) :
    readValue outer (value.tokens ++ rest) =
      if value.isReadable outer then .ok (value.sorted, rest) else .error .malformed := by
  rw [← value.tokens_form, readValue_form, value.isReadable_form, value.value_form]

end BehaviorTree.Json
