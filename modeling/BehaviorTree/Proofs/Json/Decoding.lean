import BehaviorTree.Json.Decoder
import BehaviorTree.Proofs.Json.Reading
import Mathlib.Data.String.Basic

/-!
# Records from sorted members

A record is written with its members in an order of its own, some of them left out.  It is read with
the members in the order of their names.  Slots are members that may be left out: sorting slots by
their names and sorting the members that are present come to the same, so that the members of a
record can be decoded slot by slot.
-/

namespace BehaviorTree.Json

open BehaviorTree.Number

/-- A member that may be left out. -/
abbrev Slot := String × Option Value

/-- The members that are not left out. -/
def present (slots : List Slot) : List (String × Value) :=
  slots.filterMap fun slot => slot.2.map fun value => (slot.1, value)

def Slot.sorted (slot : Slot) : Slot :=
  (slot.1, slot.2.map Value.sorted)

/-- The slots with one more, before the first slot of a greater name. -/
def insertSlot (slot : Slot) : List Slot → List Slot
  | [] => [slot]
  | other :: slots =>
      if slot.1 < other.1 then slot :: other :: slots else other :: insertSlot slot slots

/-- The slots in the order of their names. -/
def arranged (slots : List Slot) : List Slot :=
  slots.foldl (fun arranged slot => insertSlot slot arranged) []

variable {slot : Slot} {slots : List Slot}

@[simp]
theorem present_nil : present [] = [] :=
  rfl

theorem present_cons (slot : Slot) (slots : List Slot) :
    present (slot :: slots) =
      match slot.2 with
      | some value => (slot.1, value) :: present slots
      | none => present slots := by
  rcases slot with ⟨name, _ | value⟩ <;> rfl

/-! ## Sorting -/

theorem mem_present {member : String × Value} (isPresent : member ∈ present slots) :
    ∃ slot ∈ slots, slot.1 = member.1 := by
  rcases List.mem_filterMap.mp isPresent with ⟨slot, slotMem, written⟩
  rcases Option.map_eq_some_iff.mp written with ⟨value, _, rfl⟩
  exact ⟨slot, slotMem, rfl⟩

theorem mem_insertSlot {other : Slot} :
    other ∈ insertSlot slot slots ↔ other = slot ∨ other ∈ slots := by
  induction slots with
  | nil => simp [insertSlot]
  | cons first slots ih =>
      rw [insertSlot]
      split
      · simp
      · simp only [List.mem_cons, ih]
        constructor
        · rintro (rfl | rfl | later)
          · exact .inr (.inl rfl)
          · exact .inl rfl
          · exact .inr (.inr later)
        · rintro (rfl | rfl | later)
          · exact .inr (.inl rfl)
          · exact .inl rfl
          · exact .inr (.inr later)

theorem pairwise_insertSlot (ordered : slots.Pairwise (·.1 < ·.1))
    (fresh : ∀ other ∈ slots, slot.1 ≠ other.1) :
    (insertSlot slot slots).Pairwise (·.1 < ·.1) := by
  induction slots with
  | nil => exact List.pairwise_singleton _ _
  | cons first slots ih =>
      rcases List.pairwise_cons.mp ordered with ⟨below, rest⟩
      rw [insertSlot]
      split
      · next smaller =>
          refine List.pairwise_cons.mpr ⟨fun other member => ?_, ordered⟩
          rcases List.mem_cons.mp member with rfl | later
          · exact smaller
          · exact smaller.trans (below other later)
      · next notSmaller =>
          have greater : first.1 < slot.1 :=
            lt_of_le_of_ne (not_lt.mp notSmaller) (fresh first List.mem_cons_self).symm
          refine List.pairwise_cons.mpr ⟨fun other member => ?_,
            ih rest fun other member => fresh other (List.mem_cons_of_mem _ member)⟩
          rcases mem_insertSlot.mp member with rfl | later
          · exact greater
          · exact below other later

theorem insertMember_of_lt {name : String} {value : Value} {members : List (String × Value)}
    (least : ∀ member ∈ members, name < member.1) :
    insertMember name value members = (name, value) :: members := by
  cases members with
  | nil => rfl
  | cons member members =>
      have smaller := least member List.mem_cons_self
      rw [insertMember, if_neg smaller.ne, if_pos smaller]

theorem insertMember_of_gt {name : String} {value : Value} {member : String × Value}
    {members : List (String × Value)} (greater : member.1 < name) :
    insertMember name value (member :: members) = member :: insertMember name value members := by
  rw [insertMember, if_neg greater.ne', if_neg greater.not_gt]

/-- A slot that is present is inserted like its member; one that is not changes nothing. -/
theorem present_insertSlot (ordered : slots.Pairwise (·.1 < ·.1))
    (fresh : ∀ other ∈ slots, slot.1 ≠ other.1) :
    present (insertSlot slot slots) =
      match slot.2 with
      | some value => insertMember slot.1 value (present slots)
      | none => present slots := by
  induction slots with
  | nil => rw [insertSlot, present_cons]; rfl
  | cons first slots ih =>
      rcases List.pairwise_cons.mp ordered with ⟨below, rest⟩
      have later := ih rest fun other member => fresh other (List.mem_cons_of_mem _ member)
      rw [insertSlot]
      split
      · next smaller =>
          have least : ∀ member ∈ present (first :: slots), slot.1 < member.1 := by
            intro member isPresent
            rcases mem_present isPresent with ⟨other, otherMem, named⟩
            rw [← named]
            rcases List.mem_cons.mp otherMem with rfl | behind
            · exact smaller
            · exact smaller.trans (below other behind)
          rw [present_cons slot]
          split
          · rw [insertMember_of_lt least]
          · rfl
      · next notSmaller =>
          have greater : first.1 < slot.1 :=
            lt_of_le_of_ne (not_lt.mp notSmaller) (fresh first List.mem_cons_self).symm
          rw [present_cons first, present_cons first, later]
          rcases first with ⟨name, _ | content⟩
          · rfl
          · cases slot.2 with
            | none => rfl
            | some value => exact (insertMember_of_gt greater).symm

theorem sortedMembers_present_append (ordered : slots.Pairwise (·.1 < ·.1)) {written : List Slot}
    (distinct : (written.map Prod.fst).Nodup)
    (fresh : ∀ slot ∈ written, ∀ other ∈ slots, slot.1 ≠ other.1) :
    sortedMembers (present slots) (present written) =
      present ((written.map Slot.sorted).foldl (fun arranged slot => insertSlot slot arranged)
        slots) := by
  induction written generalizing slots with
  | nil => rfl
  | cons slot written ih =>
      rcases List.nodup_cons.mp distinct with ⟨new, others⟩
      have freshSlot : ∀ other ∈ slots, slot.sorted.1 ≠ other.1 := fresh slot List.mem_cons_self
      have inserted := present_insertSlot ordered freshSlot
      have continued := ih (pairwise_insertSlot ordered freshSlot) others ?_
      · rw [List.map_cons, List.foldl_cons, ← continued, inserted, present_cons]
        rcases slot with ⟨name, _ | value⟩ <;> rfl
      · intro next nextMem other otherMem
        rcases mem_insertSlot.mp otherMem with rfl | old
        · intro same
          exact new (List.mem_map.mpr ⟨next, nextMem, same⟩)
        · exact fresh next (List.mem_cons_of_mem _ nextMem) other old

/-- The members of an object are sorted like its slots. -/
theorem sorted_object (distinct : (slots.map Prod.fst).Nodup) :
    (Value.object (present slots)).sorted =
      .object (present (arranged (slots.map Slot.sorted))) := by
  rw [Value.sorted, arranged]
  exact congrArg Value.object (sortedMembers_present_append .nil distinct nofun)

/-! ## Readable lists and slots -/

theorem readableItems_eq_all (level : Nat) (items : List Value) :
    readableItems level items = items.all fun item => item.isReadable level := by
  induction items with
  | nil => rfl
  | cons item items ih => rw [readableItems, ih, List.all_cons]

theorem isReadable_list {α : Type} {level : Nat} {write : α → Value} {contents : List α}
    (shallow : level < deepestNesting)
    (readable : ∀ content ∈ contents, (write content).isReadable (level + 1) = true) :
    (Value.list (contents.map write)).isReadable level = true := by
  simp only [Value.isReadable, shallow, decide_true, Bool.true_and, readableItems_eq_all,
    List.all_eq_true, List.mem_map]
  rintro _ ⟨content, member, rfl⟩
  exact readable content member

/-- Whether what a slot holds can be read. -/
def Slot.isReadable (level : Nat) (slot : Slot) : Bool :=
  slot.2.all fun value => value.isReadable level

theorem readableMembers_present (level : Nat) (slots : List Slot) :
    readableMembers level (present slots) = slots.all (Slot.isReadable level) := by
  induction slots with
  | nil => rfl
  | cons slot slots ih =>
      rcases slot with ⟨name, _ | value⟩
      · exact ih
      · rw [present_cons, List.all_cons, ← ih]
        rfl

theorem isReadable_optional {α : Type} {level : Nat} {name : String} {write : α → Value}
    {content : Option α} (readable : ∀ content, (write content).isReadable level = true) :
    Slot.isReadable level (name, content.map write) = true := by
  cases content with
  | none => rfl
  | some content => exact readable content

/-! ## Decoding slots -/

namespace Shape

variable {Record : Type} (shape : Shape Record)

/-- Stores a slot; one that is left out changes nothing. -/
def setSlot (record : Record) (slot : Slot) : Except String Record :=
  match slot.2 with
  | some value => shape.setMember record (slot.1, value)
  | none => .ok record

theorem foldlM_present (slots : List Slot) (record : Record) :
    (present slots).foldlM shape.setMember record = slots.foldlM shape.setSlot record := by
  induction slots generalizing record with
  | nil => rfl
  | cons slot slots ih =>
      rcases slot with ⟨name, _ | value⟩
      · exact ih record
      · rw [present_cons, List.foldlM_cons, List.foldlM_cons]
        exact bind_congr fun record => ih record

/-- A record is decoded slot by slot, if no required field is left out. -/
theorem decode_present {slots : List Slot}
    (complete : ∀ field ∈ shape.fields, field.required = true →
      ∃ value, (field.name, some value) ∈ slots) :
    shape.decode (.object (present slots)) = slots.foldlM shape.setSlot shape.blank := by
  have nothingMissing : (shape.fields.find? fun field =>
      field.required && !(present slots).any (·.1 = field.name)) = none := by
    rw [List.find?_eq_none]
    intro field member
    simp only [Bool.and_eq_true, Bool.not_eq_true', not_and, Bool.not_eq_false]
    intro required
    rcases complete field member required with ⟨value, written⟩
    rw [List.any_eq_true]
    exact ⟨(field.name, value), List.mem_filterMap.mpr ⟨_, written, rfl⟩, by simp⟩
  rw [decode, ofMembers, nothingMissing, foldlM_present]
  cases slots.foldlM shape.setSlot shape.blank <;> rfl

variable {shape}

theorem setSlot_some {name : String} {field : Field Record} (found : shape.field? name = some field)
    (record : Record) (value : Value) :
    shape.setSlot record (name, some value) = field.set record value := by
  simp only [setSlot, setMember, found]

theorem setSlot_read {name : String} {field : Field Record} {record after : Record} {value : Value}
    (found : shape.field? name = some field) (reads : field.set record value = .ok after) :
    shape.setSlot record (name, some value) = .ok after :=
  (setSlot_some found record value).trans reads

/-- A field that may be left out is stored whether it is there or not. -/
theorem setSlot_optional {α : Type} {name : String} {decoder : Decoder α}
    {store : Record → Option α → Record} {write : α → Value} {record : Record} (content : Option α)
    (found : shape.field? name = some (.of name (.optional decoder) store))
    (reads : ∀ content, Decoder.optional decoder (write content) = .ok (some content))
    (blank : store record none = record) :
    shape.setSlot record (name, content.map write) = .ok (store record content) := by
  cases content with
  | none => rw [blank]; rfl
  | some content =>
      rw [Option.map_some, setSlot_some found]
      change (Decoder.optional decoder (write content)).map (store record) = _
      rw [reads]
      rfl

end Shape

theorem optional_eq_some {α : Type} {decoder : Decoder α} {value : Value} {content : α}
    (written : value ≠ .null) (reads : decoder value = .ok content) :
    Decoder.optional decoder value = .ok (some content) := by
  have decoded : Decoder.optional decoder value = (decoder value).map some := by
    cases value with
    | null => exact absurd rfl written
    | _ => rfl
  rw [decoded, reads]
  rfl

end BehaviorTree.Json
