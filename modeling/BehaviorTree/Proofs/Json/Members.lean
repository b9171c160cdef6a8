import BehaviorTree.Json.Document
import BehaviorTree.Proofs.Json.Reading

/-!
# Records from the members of a document

A record is taken from the tokens of a document as they come.  Where the document is an object, its
members are stored one after another, each as the value that it has.
-/

namespace BehaviorTree.Json

theorem exists_of_bind_eq_ok {ε α β : Type} {first : Except ε α} {next : α → Except ε β}
    {result : β} (done : (first >>= next) = .ok result) :
    ∃ value, first = .ok value ∧ next value = .ok result := by
  cases first with
  | error failure => cases done
  | ok value => exact ⟨value, rfl, done⟩

theorem exists_of_map_eq_ok {ε α β : Type} {decoded : Except ε α} {store : α → β} {result : β}
    (done : decoded.map store = .ok result) :
    ∃ content, decoded = .ok content ∧ store content = result := by
  cases decoded with
  | error failure => cases done
  | ok content => exact ⟨content, rfl, Except.ok.inj done⟩

variable {Record : Type} {shape : Shape Record} {field : Field Record} {record after : Record}
  {value : Value} {form : Form} {rest left : List Token}

theorem tokens_list (items : List Form) : ∃ rest, (Form.list items).tokens = .openList :: rest := by
  cases items with
  | nil => exact ⟨_, rfl⟩
  | cons item items => exact ⟨_, rfl⟩

theorem tokens_object (members : List (Option String × Form)) :
    ∃ rest, (Form.object members).tokens = .openObject :: rest := by
  cases members with
  | nil => exact ⟨_, rfl⟩
  | cons member members => exact ⟨_, rfl⟩

/-! ## Fields -/

theorem orUnfit_eq_ok_iff {α : Type} {stored : Except String α} {value : α} :
    orUnfit stored = .ok value ↔ stored = .ok value := by
  cases stored <;> simp [orUnfit]

/-- A field that looks at the first token of a value takes no list, and no field takes an object. -/
structure Field.Discerns (field : Field Record) : Prop where
  list : field.holdsList = false → ∀ record items after,
    field.set record (.list items) ≠ .ok after
  object : ∀ record members after, field.set record (.object members) ≠ .ok after

/-- A field that is taken by the first token of a form is stored as what this token shows. -/
theorem Field.read_head_iff {token : Token}
    (single : (field.holdsList && token = .openList) = false) :
    field.read record (token :: rest) = .ok (after, left) ↔
      ∃ head, token.head = .ok head ∧ field.set record head = .ok after ∧ left = rest := by
  rw [Field.read, if_neg (by simp [single])]
  constructor
  · intro read
    rcases exists_of_bind_eq_ok read with ⟨head, shown, next⟩
    rcases exists_of_bind_eq_ok next with ⟨stored, fits, done⟩
    cases done
    exact ⟨head, shown, orUnfit_eq_ok_iff.mp fits, rfl⟩
  · rintro ⟨head, shown, stored, rfl⟩
    rw [shown]
    change (orUnfit (field.set record head) >>= fun stored => pure (stored, left)) = _
    rw [stored]
    rfl

/-- A field is taken from the tokens of a form if the form is readable and its value fits. -/
theorem Field.read_form_iff (discerns : field.Discerns) :
    field.read record (form.tokens ++ rest) = .ok (after, left) ↔
      form.isReadable 1 = true ∧ field.set record form.value = .ok after ∧ left = rest := by
  cases form with
  | null => exact (read_head_iff (by simp)).trans (by simp [Token.head, Form.isReadable, Form.value])
  | boolean content =>
      exact (read_head_iff (by simp)).trans (by simp [Token.head, Form.isReadable, Form.value])
  | number numeral =>
      refine (read_head_iff (by simp)).trans ?_
      cases overflows : numeral.overflows <;>
        simp [Token.head, Form.isReadable, Form.value, overflows]
  | text content =>
      refine (read_head_iff (by simp)).trans ?_
      cases content <;> simp [Token.head, Form.isReadable, Form.value]
  | list items =>
      rcases tokens_list items with ⟨others, opened⟩
      by_cases several : field.holdsList = true
      · have taken := readValue_form 1 (.list items) rest
        rw [opened, List.cons_append] at taken ⊢
        rw [Field.read, if_pos (by simp [several]), taken]
        by_cases readable : (Form.list items).isReadable 1 = true
        · rw [if_pos readable]
          cases stored : field.set record (Form.list items).value with
          | error reason => simp [orUnfit, stored, bind, Except.bind]
          | ok next => simp [orUnfit, stored, bind, Except.bind, pure, Except.pure, readable, eq_comm]
        · rw [if_neg readable]
          simp [readable, bind, Except.bind]
      · rw [Bool.not_eq_true] at several
        rw [opened, List.cons_append, read_head_iff (by simp [several])]
        have unfit : ∀ items, field.set record (.list items) ≠ .ok after :=
          fun items => discerns.list several record items after
        simp [Token.head, Form.value, unfit]
  | object members =>
      rcases tokens_object members with ⟨others, opened⟩
      rw [opened, List.cons_append, read_head_iff (by simp)]
      have unfit : ∀ members, field.set record (.object members) ≠ .ok after :=
        fun members => discerns.object record members after
      simp [Token.head, Form.value, unfit]

/-! ## Members -/

/-- A member is taken if its name forms characters and is not that of a field taken before, and if a
field of this name takes its value. -/
theorem Shape.readMember_form_iff (discerns : ∀ field ∈ shape.fields, field.Discerns)
    {seen : List String} {name : Option String} {taken : String} :
    shape.readMember seen record (.text name :: .colon :: (form.tokens ++ rest)) =
        .ok (taken, after, left) ↔
      name = some taken ∧ ((shape.field? taken).isSome → taken ∉ seen ∧ form.isReadable 1 = true) ∧
        shape.setMember record (taken, form.value) = .ok after ∧ left = rest := by
  cases name with
  | none => simp [readMember]
  | some name =>
      rw [readMember]
      by_cases repeated : name ∈ seen ∧ (shape.field? name).isSome = true
      · rw [if_pos repeated]
        constructor
        · rintro ⟨⟩
        · rintro ⟨same, fresh, _⟩
          cases same
          exact absurd repeated.1 (fresh repeated.2).1
      · rw [if_neg repeated, readMemberValue]
        cases found : shape.field? name with
        | none =>
            simp only [skipValue_form]
            constructor
            · rintro ⟨⟩
              simp [setMember, found]
            · rintro ⟨same, _, stored, rfl⟩
              cases same
              rw [setMember, found] at stored
              cases stored
              rfl
        | some field =>
            have isField : field ∈ shape.fields := List.mem_of_find?_eq_some found
            have fresh : name ∉ seen := fun seen => repeated ⟨seen, by simp [found]⟩
            constructor
            · intro read
              rcases exists_of_bind_eq_ok read with ⟨⟨stored, others⟩, member, done⟩
              cases done
              rcases (Field.read_form_iff (discerns field isField)).mp member with
                ⟨readable, set, rfl⟩
              refine ⟨rfl, fun _ => ⟨fresh, readable⟩, ?_, rfl⟩
              rw [setMember, found]
              exact set
            · rintro ⟨same, readable, stored, rfl⟩
              cases same
              rw [setMember, found] at stored
              have read : field.read record (form.tokens ++ left) = .ok (after, left) :=
                (Field.read_form_iff (discerns field isField)).mpr
                  ⟨(readable (by simp [found])).2, stored, rfl⟩
              simp only [read]
              rfl

/-- A member that has been taken is stored, and it repeats no name of a field. -/
theorem Shape.readMember_value (discerns : ∀ field ∈ shape.fields, field.Discerns)
    {seen : List String} {name taken : String}
    (read : shape.readMember seen record (.text (some name) :: .colon :: (value.tokens ++ rest)) =
      .ok (taken, after, left)) :
    taken = name ∧ left = rest ∧ shape.setMember record (name, value.sorted) = .ok after ∧
      ((shape.field? name).isSome → name ∉ seen) := by
  rw [← value.tokens_form, readMember_form_iff discerns, value.value_form] at read
  rcases read with ⟨same, fresh, stored, rfl⟩
  cases same
  exact ⟨rfl, rfl, stored, fun known => (fresh known).1⟩

/-- The member with the value that is stored for it. -/
def sortedMember (member : String × Value) : String × Value :=
  (member.1, member.2.sorted)

/-- No two members have the name of the same field. -/
def Shape.Distinct (shape : Shape Record) (members : List (String × Value)) : Prop :=
  members.Pairwise fun member later => (shape.field? member.1).isSome → member.1 ≠ later.1

theorem Shape.readMembers_values (discerns : ∀ field ∈ shape.fields, field.Discerns) {fuel : Nat}
    {seen : List String} {members : List (String × Value)}
    (read : shape.readMembers fuel seen record
      (remainingMemberTokens members ++ (.closeObject :: rest)) = .ok (after, left)) :
    (members.map sortedMember).foldlM shape.setMember record = .ok after ∧ left = rest ∧
      shape.Distinct members ∧
      ∀ member ∈ members, (shape.field? member.1).isSome → member.1 ∉ seen := by
  -- The induction is on the members; a step uses one unit of fuel, whatever it takes.
  induction members generalizing fuel seen record with
  | nil =>
      cases fuel with
      | zero => cases read
      | succ fuel =>
          rw [remainingMemberTokens, List.nil_append, readMembers] at read
          cases read
          exact ⟨rfl, rfl, .nil, nofun⟩
  | cons member members ih =>
      cases fuel with
      | zero => cases read
      | succ fuel =>
          rw [remainingMemberTokens, List.cons_append, List.cons_append, List.cons_append,
            List.append_assoc, readMembers] at read
          rcases exists_of_bind_eq_ok read with ⟨⟨name, stored, others⟩, first, later⟩
          rcases readMember_value discerns first with ⟨rfl, rfl, set, fresh⟩
          rcases ih later with ⟨stores, rfl, distinct, unseen⟩
          refine ⟨?_, rfl, List.pairwise_cons.mpr ⟨?_, distinct⟩, ?_⟩
          · rw [List.map_cons, List.foldlM_cons, sortedMember, set]
            exact stores
          · intro later laterMem known same
            rw [same] at known
            exact unseen later laterMem known (same ▸ List.mem_cons_self)
          · intro other otherMem known
            rcases List.mem_cons.mp otherMem with rfl | later
            · exact fresh known
            · exact fun seen => unseen other later known (List.mem_cons_of_mem _ seen)

/-- A document that is an object is taken by storing its members in their order. -/
theorem Shape.read_object (discerns : ∀ field ∈ shape.fields, field.Discerns) {text : String}
    {members : List (String × Value)} (written : tokens text = (Value.object members).tokens)
    (read : shape.read text = .ok after) :
    (members.map sortedMember).foldlM shape.setMember shape.blank = .ok after ∧
      shape.Distinct members := by
  rw [Shape.read, written] at read
  rcases exists_of_bind_eq_ok read with ⟨⟨taken, left⟩, whole, done⟩
  have complete : taken = after ∧ left = [] := by
    cases left with
    | nil =>
        cases done
        exact ⟨rfl, rfl⟩
    | cons token left => cases done
  rcases complete with ⟨rfl, rfl⟩
  cases members with
  | nil =>
      cases whole
      exact ⟨rfl, .nil⟩
  | cons member members =>
      simp only [Value.tokens, readTokens, readObject] at whole
      rcases exists_of_bind_eq_ok whole with ⟨⟨name, stored, others⟩, first, later⟩
      rcases readMember_value discerns first with ⟨rfl, rfl, set, _⟩
      rcases readMembers_values discerns later with ⟨stores, _, distinct, unseen⟩
      refine ⟨?_, List.pairwise_cons.mpr ⟨?_, distinct⟩⟩
      · rw [List.map_cons, List.foldlM_cons, sortedMember, set]
        exact stores
      · intro later laterMem known same
        rw [same] at known
        exact unseen later laterMem known (same ▸ List.mem_singleton_self _)

/-! ## What a field holds -/

/-- What the members hold under a name, or a default if no member has this name. -/
def Holds {α : Type} (members : List (String × Value)) (name : String) (decoder : Decoder α)
    (default part : α) : Prop :=
  match members.lookup name with
  | some value => decoder value.sorted = .ok part
  | none => part = default

/-- The field of a name sets a part of the record to what it decodes, and no other field does. -/
structure Shape.Sets {α : Type} (shape : Shape Record) (name : String) (decoder : Decoder α)
    (part : Record → α) : Prop where
  known : (shape.field? name).isSome
  stores : ∀ field ∈ shape.fields, ∀ record value after, field.set record value = .ok after →
    if field.name = name then decoder value = .ok (part after) else part after = part record

section Sets

variable {α : Type} {name other : String} {decoder : Decoder α} {part : Record → α}

theorem Shape.Sets.set_of_member (sets : shape.Sets name decoder part)
    (stored : shape.setMember record (name, value) = .ok after) :
    decoder value = .ok (part after) := by
  rcases Option.isSome_iff_exists.mp sets.known with ⟨field, found⟩
  have named : field.name = name := by simpa using List.find?_some found
  rw [setMember, found] at stored
  have set := sets.stores field (List.mem_of_find?_eq_some found) record value after stored
  rwa [if_pos named] at set

theorem Shape.Sets.eq_of_member (sets : shape.Sets name decoder part) (different : other ≠ name)
    (stored : shape.setMember record (other, value) = .ok after) : part after = part record := by
  rw [setMember] at stored
  split at stored
  · next field found =>
      have named : field.name = other := by simpa using List.find?_some found
      have kept := sets.stores field (List.mem_of_find?_eq_some found) record value after stored
      rwa [named, if_neg different] at kept
  · cases stored
    rfl

theorem Shape.Sets.holds (sets : shape.Sets name decoder part) {members : List (String × Value)}
    (stored : (members.map sortedMember).foldlM shape.setMember record = .ok after)
    (distinct : shape.Distinct members) :
    Holds members name decoder (part record) (part after) := by
  induction members generalizing record with
  | nil =>
      cases stored
      rfl
  | cons member members ih =>
      rcases member with ⟨first, value⟩
      rw [List.map_cons, List.foldlM_cons, sortedMember] at stored
      rcases exists_of_bind_eq_ok stored with ⟨next, set, stores⟩
      rcases List.pairwise_cons.mp distinct with ⟨apart, distinct⟩
      have rest := ih stores distinct
      by_cases same : first = name
      · subst same
        -- A field is not repeated, so what its member sets stays until the end.
        have absent : members.lookup first = none := by
          rw [List.lookup_eq_none_iff]
          intro member listed
          simpa using apart member listed sets.known
        have unchanged : part after = part next := by
          simpa only [Holds, absent] using rest
        rw [Holds, List.lookup_cons_self, unchanged]
        exact sets.set_of_member set
      · have otherName : (name == first) = false := beq_false_of_ne (Ne.symm same)
        rw [Holds, List.lookup_cons, otherName, ← sets.eq_of_member same set]
        exact rest

end Sets

end BehaviorTree.Json
