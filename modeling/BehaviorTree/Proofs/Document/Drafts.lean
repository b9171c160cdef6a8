import BehaviorTree.Document.TreeText
import BehaviorTree.Proofs.Document.Records
import BehaviorTree.Proofs.Json.Members
import BehaviorTree.Proofs.Json.Rendering

/-!
# Drafts of documents

A draft holds what the members of a document say, and defaults where they are silent.

The text of a written document is read as the draft of that document, unless it holds a number that is
out of range.
-/

namespace BehaviorTree.Json

variable {Record : Type} {shape : Shape Record}

/-! ## Members -/

theorem Shape.readMembers_comma {fuel : Nat} {seen : List String} {record after : Record}
    {name : String} {tokens rest : List Token}
    (read : shape.readMember seen record tokens = .ok (name, after, rest)) :
    shape.readMembers (fuel + 1) seen record (.comma :: tokens) =
      shape.readMembers fuel (name :: seen) after rest := by
  rw [readMembers, read]
  rfl

theorem Shape.readTokens_member {after : Record} {name first : String} {tokens rest : List Token}
    (read : shape.readMember [] shape.blank (.text (some first) :: tokens) =
      .ok (name, after, rest)) :
    shape.readTokens (.openObject :: .text (some first) :: tokens) =
      shape.readMembers (tokens.length + 1) [name] after rest := by
  simp only [readTokens, readObject, read]
  rfl

/-- A member whose value is a single token. -/
theorem Shape.readMember_single {seen : List String} {record after : Record} {name : String}
    {field : Field Record} {token : Token} {value : Value} (rest : List Token)
    (fresh : name ∉ seen) (found : shape.field? name = some field)
    (single : field.holdsList = false) (head : token.head = .ok value)
    (stored : field.set record value = .ok after) :
    shape.readMember seen record (.text (some name) :: .colon :: token :: rest) =
      .ok (name, after, rest) := by
  have read : field.read record (token :: rest) = .ok (after, rest) := by
    simp only [Field.read, single, head, Bool.false_and, Bool.false_eq_true, ↓reduceIte]
    change (do let kept ← orUnfit (field.set record value); pure (kept, rest)) = _
    rw [stored]
    rfl
  rw [readMember, if_neg (by simp [fresh])]
  simp only [readMemberValue, found, read]
  rfl

/-- A member whose value is a list, after a comma. -/
theorem Shape.readMembers_list {fuel : Nat} {seen : List String} {record after : Record}
    {name : String} {field : Field Record} {items : List Value} (rest : List Token)
    (fresh : name ∉ seen) (found : shape.field? name = some field) (several : field.holdsList = true)
    (stored : field.set record (Value.list items).sorted = .ok after) :
    shape.readMembers (fuel + 1) seen record
        (.comma :: .text (some name) :: .colon :: ((Value.list items).tokens ++ rest)) =
      if (Value.list items).isReadable 1 then shape.readMembers fuel (name :: seen) after rest
      else .error .malformed := by
  have value := readValue_tokens 1 (.list items) rest
  rcases tokens_list (formsOfItems items) with ⟨others, form⟩
  have opened : (Value.list items).tokens = .openList :: others :=
    (Value.list items).tokens_form.symm.trans form
  rw [opened, List.cons_append] at value ⊢
  rw [readMembers, readMember, if_neg (by simp [fresh])]
  simp only [readMemberValue, found, Field.read, several, value, decide_true, Bool.and_self,
    ↓reduceIte]
  split
  · simp only [bind, Except.bind, stored]
    rfl
  · rfl

end BehaviorTree.Json

namespace BehaviorTree.Document

open BehaviorTree.Json BehaviorTree.Number

/-! ## Drafts of objects -/

namespace TreeDraft

/-- The members of a document say what its draft holds. -/
structure IsOf (draft : TreeDraft) (members : List (String × Value)) : Prop where
  name : Holds members "Name" .text "" draft.name
  defaultState : Holds members "DefaultState" .text "Default" draft.defaultState
  expandMethods : Holds members "ExpandMethods" .boolean false draft.expandMethods
  rootId : Holds members "RootId" (.optional .identity) none draft.rootId
  behaviors : Holds members "Behaviors" .items [] draft.behaviors
  hierarchy : Holds members "Hierarchy" .items [] draft.hierarchy

theorem discerns : ∀ field ∈ shape.fields, field.Discerns := by
  simp only [shape, List.forall_mem_cons, List.not_mem_nil, false_implies, implies_true, and_true]
  refine ⟨?_, ?_, ?_, ?_, ?_, ?_⟩
  all_goals exact ⟨nofun, nofun⟩

/-- Every field sets its own part of a draft. -/
theorem sets_parts :
    shape.Sets "Name" .text TreeDraft.name ∧
      shape.Sets "DefaultState" .text defaultState ∧
      shape.Sets "ExpandMethods" .boolean expandMethods ∧
      shape.Sets "RootId" (.optional .identity) rootId ∧
      shape.Sets "Behaviors" .items behaviors ∧
      shape.Sets "Hierarchy" .items hierarchy := by
  refine ⟨⟨rfl, ?_⟩, ⟨rfl, ?_⟩, ⟨rfl, ?_⟩, ⟨rfl, ?_⟩, ⟨rfl, ?_⟩, ⟨rfl, ?_⟩⟩
  all_goals
    simp only [shape, List.forall_mem_cons, List.not_mem_nil, false_implies, implies_true, and_true]
    refine ⟨?_, ?_, ?_, ?_, ?_, ?_⟩
    all_goals
      intro record value after stored
      rcases exists_of_map_eq_ok stored with ⟨content, decoded, rfl⟩
      first | exact decoded | rfl

theorem isOf_of_read {text : String} {members : List (String × Value)} {draft : TreeDraft}
    (written : tokens text = (Value.object members).tokens)
    (decoded : shape.read text = .ok draft) : draft.IsOf members := by
  rcases Shape.read_object discerns written decoded with ⟨stored, distinct⟩
  rcases sets_parts with ⟨name, defaultState, expandMethods, rootId, behaviors, hierarchy⟩
  exact {
    name := name.holds stored distinct
    defaultState := defaultState.holds stored distinct
    expandMethods := expandMethods.holds stored distinct
    rootId := rootId.holds stored distinct
    behaviors := behaviors.holds stored distinct
    hierarchy := hierarchy.holds stored distinct }

end TreeDraft

/-! ## Drafts of written documents -/

/-- The draft that is read from the text of a document. -/
def TreeDocument.rereadDraft (document : TreeDocument) : TreeDraft where
  name := document.name
  defaultState := document.defaultState
  expandMethods := document.expandMethods
  behaviors := document.behaviors.map (Value.sorted ∘ BehaviorRecord.toValue)
  hierarchy := document.hierarchy.map (Value.sorted ∘ HierarchyEntry.toValue)

theorem TreeDocument.tokens_toValue (document : TreeDocument) :
    document.toValue.tokens =
      .openObject :: .text (some "Name") :: .colon :: .text (some document.name) ::
        .comma :: .text (some "DefaultState") :: .colon :: .text (some document.defaultState) ::
        .comma :: .text (some "ExpandMethods") :: .colon :: .boolean document.expandMethods ::
        .comma :: .text (some "Behaviors") :: .colon ::
          ((Value.list (document.behaviors.map BehaviorRecord.toValue)).tokens ++
        .comma :: .text (some "Hierarchy") :: .colon ::
          ((Value.list (document.hierarchy.map HierarchyEntry.toValue)).tokens ++
            [.closeObject])) := by
  simp only [toValue, Value.tokens, remainingMemberTokens, List.cons_append, List.nil_append,
    List.append_nil, List.append_assoc]

/-- A written document is read as its draft, if its lists are readable. -/
theorem TreeDocument.read_render (document : TreeDocument) :
    TreeDraft.shape.read document.toValue.render =
      if (Value.list (document.behaviors.map BehaviorRecord.toValue)).isReadable 1 ∧
        (Value.list (document.hierarchy.map HierarchyEntry.toValue)).isReadable 1 then
        .ok document.rereadDraft
      else .error .malformed := by
  rw [Shape.read, tokens_render, tokens_toValue, Shape.readTokens_member
    (Shape.readMember_single _ List.not_mem_nil rfl rfl rfl rfl)]
  simp only [List.length_cons]
  rw [Shape.readMembers_comma (Shape.readMember_single _ (by decide) rfl rfl rfl rfl),
    Shape.readMembers_comma (Shape.readMember_single _ (by decide) rfl rfl rfl rfl)]
  rw [Shape.readMembers_list _ (by decide) rfl rfl rfl,
    Shape.readMembers_list _ (by decide) rfl rfl rfl, Shape.readMembers]
  simp only [sortedItems_eq_map, List.map_map]
  by_cases behaviors :
      (Value.list (document.behaviors.map BehaviorRecord.toValue)).isReadable 1 = true
  · by_cases hierarchy :
        (Value.list (document.hierarchy.map HierarchyEntry.toValue)).isReadable 1 = true
    · simp only [behaviors, hierarchy, and_self, ↓reduceIte]
      rfl
    · simp only [behaviors, hierarchy, ↓reduceIte]
      rfl
  · simp only [behaviors]
    rfl

end BehaviorTree.Document
