import BehaviorTree.Proofs.Document.Drafts
import BehaviorTree.Proofs.Json.Acceptance

/-!
# Texts that are admitted as tree documents

Records may be unfit, and then they are left out.  The members of the document itself may not: which
texts are admitted is decided by what they say about these members.
-/

namespace BehaviorTree

open BehaviorTree.Document BehaviorTree.Json BehaviorTree.Number

/-! ## What a member may be -/

namespace Json.Form

def isNull : Form → Bool
  | .null => true
  | _ => false

def isBoolean : Form → Bool
  | .boolean _ => true
  | _ => false

/-- A text whose escapes form characters. -/
def isCharacters : Form → Bool
  | .text content => content.isSome
  | _ => false

def isList : Form → Bool
  | .list _ => true
  | _ => false

/-- An integer that fits into 64 bits, written as one. -/
def isIdentity : Form → Bool
  | .number numeral =>
      match numeral.quantity with
      | .integer value => decide (-9223372036854775808 ≤ value ∧ value ≤ 9223372036854775807)
      | .real _ => false
  | _ => false

end Json.Form

namespace Document.TreeDraft

/-- The names of the members of a document, in the order in which a list gives them. -/
def memberNames : List String :=
  ["Name", "DefaultState", "ExpandMethods", "RootId", "Behaviors", "Hierarchy"]

/-- A document may say this under a name.  What it says under a name of no member is passed over. -/
def admits (name : String) (form : Form) : Bool :=
  if name = "Name" ∨ name = "DefaultState" then form.isCharacters
  else if name = "ExpandMethods" then form.isBoolean
  else if name = "RootId" then form.isNull || form.isIdentity
  else if name = "Behaviors" ∨ name = "Hierarchy" then form.isList && form.isReadable 1
  else true

end Document.TreeDraft

open TreeDraft in
/-- The form is that of a tree document: all names form characters, none of a member is repeated, and
every member is one that may be. -/
def Json.Form.IsTreeDocument : Form → Prop
  | .object members =>
      (∀ member ∈ members, ∃ name, member.1 = some name ∧ admits name member.2 = true) ∧
        members.Pairwise fun member later =>
          ∀ name ∈ memberNames, member.1 = some name → later.1 ≠ some name
  | .list items =>
      items.length ≤ memberNames.length ∧
        ∀ place ∈ memberNames.zip items, admits place.1 place.2 = true
  | _ => False

/-! ## What the fields of a draft take -/

theorem Json.exists_map_eq_ok_iff {ε α β : Type} {decoded : Except ε α} {store : α → β} :
    (∃ after, decoded.map store = .ok after) ↔ ∃ content, decoded = .ok content := by
  cases decoded <;> simp [Except.map]

namespace Document.TreeDraft

variable {form : Form}

theorem takes_text_iff :
    (form.isReadable 1 = true ∧ ∃ content, Decoder.text form.value = .ok content) ↔
      form.isCharacters = true := by
  cases form <;> simp [Form.isReadable, Form.value, Decoder.text, Form.isCharacters]

theorem takes_boolean_iff :
    (form.isReadable 1 = true ∧ ∃ content, Decoder.boolean form.value = .ok content) ↔
      form.isBoolean = true := by
  cases form <;> simp [Form.isReadable, Form.value, Decoder.boolean, Form.isBoolean]

theorem takes_identity_iff :
    (form.isReadable 1 = true ∧ ∃ content, Decoder.optional .identity form.value = .ok content) ↔
      (form.isNull || form.isIdentity) = true := by
  cases form with
  | null => simp [Form.isReadable, Form.value, Decoder.optional, Form.isNull]
  | number numeral =>
      simp only [Form.isReadable, Form.value, Decoder.optional, Decoder.identity, Decoder.integer,
        Form.isNull, Form.isIdentity, Numeral.overflows, Bool.false_or]
      cases numeral.quantity with
      | integer value =>
          by_cases small : -9223372036854775808 ≤ value ∧ value ≤ 9223372036854775807 <;>
            simp [small, Except.map]
      | real value => simp [Except.map]
  | _ => simp [Form.value, Decoder.optional, Decoder.identity, Decoder.integer, Except.map,
      Form.isNull, Form.isIdentity]

theorem takes_items_iff :
    (form.isReadable 1 = true ∧ ∃ content, Decoder.items form.value = .ok content) ↔
      (form.isList && form.isReadable 1) = true := by
  cases form <;> simp [Form.value, Decoder.items, Form.isList]

theorem takes_iff : ∀ field ∈ shape.fields,
    (shape.Takes field form ↔ admits field.name form = true) := by
  simp only [shape, List.forall_mem_cons, List.not_mem_nil, false_implies, implies_true, and_true]
  refine ⟨?_, ?_, ?_, ?_, ?_, ?_⟩
  all_goals refine (and_congr_right' exists_map_eq_ok_iff).trans ?_
  · exact takes_text_iff
  · exact takes_text_iff
  · exact takes_boolean_iff
  · exact takes_identity_iff
  · exact takes_items_iff
  · exact takes_items_iff

theorem isRegular : shape.IsRegular where
  discerns := discerns
  steady := by
    simp only [shape, List.forall_mem_cons, List.not_mem_nil, false_implies, implies_true, and_true]
    refine ⟨?_, ?_, ?_, ?_, ?_, ?_⟩
    all_goals
      intro record other value stored
      exact exists_map_eq_ok_iff.mpr (exists_map_eq_ok_iff.mp stored)

theorem optional : ∀ field ∈ shape.fields, field.required = false := by
  simp [shape, Field.of, Field.listed]

theorem isSome_field?_iff {name : String} : (shape.field? name).isSome ↔ name ∈ memberNames := by
  rw [Shape.field?, List.find?_isSome]
  change (∃ field ∈ shape.fields, _) ↔ name ∈ shape.fields.map (·.name)
  simp only [decide_eq_true_eq, List.mem_map]

theorem admits_of_unknown {name : String} (unknown : name ∉ memberNames) : admits name form = true := by
  simp only [memberNames, List.mem_cons, List.not_mem_nil, or_false, not_or] at unknown
  simp [admits, unknown]

theorem takesMember_iff {member : Option String × Form} :
    shape.TakesMember member ↔ ∃ name, member.1 = some name ∧ admits name member.2 = true := by
  refine exists_congr fun name => and_congr_right fun _ => ?_
  cases found : shape.field? name with
  | none =>
      have unknown : name ∉ memberNames := by simp [← isSome_field?_iff, found]
      simp [admits_of_unknown unknown]
  | some field =>
      have named : field.name = name := by simpa using List.find?_some found
      rw [← named, ← takes_iff field (List.mem_of_find?_eq_some found)]
      simp

theorem takesItems_iff {fields : List (Json.Field TreeDraft)} {items : List Form}
    (areFields : ∀ field ∈ fields, field ∈ shape.fields) :
    shape.TakesItems fields items ↔
      items.length ≤ fields.length ∧
        ∀ place ∈ (fields.map (·.name)).zip items, admits place.1 place.2 = true := by
  induction items generalizing fields with
  | nil =>
      have all : fields.any (·.required) = false := by
        simpa using fun field member => optional field (areFields field member)
      simp [Shape.TakesItems, all]
  | cons item items ih =>
      cases fields with
      | nil => simp [Shape.TakesItems]
      | cons field fields =>
          rcases List.forall_mem_cons.mp areFields with ⟨isField, areFields⟩
          rw [Shape.TakesItems, ih areFields, takes_iff field isField]
          simp only [List.map_cons, List.zip_cons_cons, List.forall_mem_cons, List.length_cons,
            Nat.add_le_add_iff_right]
          exact and_left_comm

theorem accepts_iff : shape.Accepts form ↔ form.IsTreeDocument := by
  cases form with
  | list items => exact takesItems_iff fun field isField => isField
  | object members =>
      refine and_congr (forall₂_congr fun _ _ => takesMember_iff) ?_
      rw [Shape.NamesOnce]
      simp only [isSome_field?_iff]
  | _ => exact Iff.rfl

end Document.TreeDraft

/-- A JSON text is loaded as a tree if and only if it says nothing unfit about the document itself. -/
theorem Tree.exists_load_iff {text : String} {form : Form} (spelled : form.IsSpelledBy text) :
    (∃ loaded, load text = .ok loaded) ↔ form.IsTreeDocument := by
  rw [← TreeDraft.accepts_iff, ← Shape.exists_read_iff TreeDraft.isRegular spelled]
  exact exists_map_eq_ok_iff

/-- The name of a tree may be left out, but it may not be null. -/
theorem Tree.not_load_nullName :
    (Value.object [("Name", .null)]).render = "\x7b\n  \"Name\": null\n\x7d" ∧
      ¬∃ loaded, load (Value.object [("Name", .null)]).render = .ok loaded := by
  refine ⟨by decide +kernel, ?_⟩
  rw [exists_load_iff (isSpelledBy_render _)]
  rintro ⟨admitted, _⟩
  rcases admitted (some "Name", .null) List.mem_cons_self with ⟨name, ⟨⟩, fits⟩
  exact absurd fits (by decide)

end BehaviorTree
