import BehaviorTree.Proofs.Json.Members

/-!
# Texts that hold a record

A text that spells a form holds a record if the form is an object whose members are taken, or a list
whose items are taken field by field.  Whether a field takes its value does not depend on what the
record has been given before, so each member can be judged alone; only the names of fields have to be
compared.
-/

namespace BehaviorTree.Json

variable {Record : Type} {shape : Shape Record} {record after : Record} {form : Form}
  {rest left : List Token}

/-- Whether the field takes a value is independent of the record. -/
def Field.IsSteady (field : Field Record) : Prop :=
  ∀ record other value, (∃ after, field.set record value = .ok after) →
    ∃ after, field.set other value = .ok after

namespace Shape

variable (shape)

/-- Every field judges its value alone, by its first token or as a list. -/
structure IsRegular : Prop where
  discerns : ∀ field ∈ shape.fields, field.Discerns
  steady : ∀ field ∈ shape.fields, field.IsSteady

/-- The field takes what the form says. -/
def Takes (field : Field Record) (form : Form) : Prop :=
  form.isReadable 1 = true ∧ ∃ after, field.set shape.blank form.value = .ok after

/-- The name forms characters, and if it is that of a field, the field takes the value. -/
def TakesMember (member : Option String × Form) : Prop :=
  ∃ name, member.1 = some name ∧ ∀ field, shape.field? name = some field → shape.Takes field member.2

/-- No two members have the name of the same field. -/
def NamesOnce (members : List (Option String × Form)) : Prop :=
  members.Pairwise fun member later =>
    ∀ name, (shape.field? name).isSome → member.1 = some name → later.1 ≠ some name

/-- The fields take one item after the other, and those that are left over may be left out. -/
def TakesItems : List (Field Record) → List Form → Prop
  | fields, [] => fields.any (·.required) = false
  | [], _ :: _ => False
  | field :: fields, item :: items => shape.Takes field item ∧ TakesItems fields items

/-- The form is that of a record. -/
def Accepts : Form → Prop
  | .object members => (∀ member ∈ members, shape.TakesMember member) ∧ shape.NamesOnce members
  | .list items => shape.TakesItems shape.fields items
  | _ => False

variable {shape}

/-! ## Objects -/

theorem IsRegular.exists_set_iff (regular : shape.IsRegular) {field : Field Record}
    (isField : field ∈ shape.fields) (record : Record) (value : Value) :
    (∃ after, field.set record value = .ok after) ↔
      ∃ after, field.set shape.blank value = .ok after :=
  ⟨regular.steady field isField record _ value, regular.steady field isField _ record value⟩

theorem IsRegular.exists_read_iff (regular : shape.IsRegular) {field : Field Record}
    (isField : field ∈ shape.fields) :
    (∃ after, field.read record (form.tokens ++ rest) = .ok (after, rest)) ↔ shape.Takes field form := by
  rw [Takes, ← regular.exists_set_iff isField record]
  constructor
  · rintro ⟨after, read⟩
    rcases (Field.read_form_iff (regular.discerns field isField)).mp read with ⟨readable, stored, _⟩
    exact ⟨readable, after, stored⟩
  · rintro ⟨readable, after, stored⟩
    exact ⟨after, (Field.read_form_iff (regular.discerns field isField)).mpr ⟨readable, stored, rfl⟩⟩

theorem takesMember_of_setMember (regular : shape.IsRegular) {name : String}
    (readable : (shape.field? name).isSome → form.isReadable 1 = true)
    (stored : shape.setMember record (name, form.value) = .ok after) :
    shape.TakesMember (some name, form) := by
  refine ⟨name, rfl, fun field found => ⟨readable (by simp [found]), ?_⟩⟩
  rw [setMember, found] at stored
  exact (regular.exists_set_iff (List.mem_of_find?_eq_some found) record _).mp ⟨after, stored⟩

theorem exists_setMember (regular : shape.IsRegular) {name : String}
    (takes : shape.TakesMember (some name, form)) (record : Record) :
    ((shape.field? name).isSome → form.isReadable 1 = true) ∧
      ∃ after, shape.setMember record (name, form.value) = .ok after := by
  rcases takes with ⟨_, ⟨⟩, takes⟩
  simp only [setMember]
  cases found : shape.field? name with
  | none => exact ⟨by simp, record, rfl⟩
  | some field =>
      rcases takes field found with ⟨readable, stored⟩
      exact ⟨fun _ => readable,
        (regular.exists_set_iff (List.mem_of_find?_eq_some found) record _).mpr stored⟩

/-- The induction is on the members; each step uses one unit of fuel. -/
theorem exists_readMembers_iff (regular : shape.IsRegular) {members : List (Option String × Form)}
    {fuel : Nat} (enough : members.length < fuel) {seen : List String} {record : Record} :
    (∃ after, shape.readMembers fuel seen record (tokensOfMembers members ++ (.closeObject :: rest)) =
        .ok (after, rest)) ↔
      (∀ member ∈ members, shape.TakesMember member) ∧ shape.NamesOnce members ∧
        ∀ member ∈ members, ∀ name ∈ seen, (shape.field? name).isSome → member.1 ≠ some name := by
  induction members generalizing fuel seen record with
  | nil =>
      rcases fuel with _ | fuel
      · exact absurd enough (Nat.not_lt_zero _)
      · exact ⟨fun _ => ⟨nofun, .nil, nofun⟩, fun _ => ⟨record, rfl⟩⟩
  | cons member members ih =>
      rcases fuel with _ | fuel
      · exact absurd enough (Nat.not_lt_zero _)
      rcases member with ⟨name, form⟩
      have remains : members.length < fuel := Nat.lt_of_succ_lt_succ enough
      rw [tokensOfMembers, List.cons_append, List.cons_append, List.cons_append, List.append_assoc,
        readMembers]
      constructor
      · rintro ⟨after, read⟩
        rcases exists_of_bind_eq_ok read with ⟨⟨taken, next, others⟩, first, later⟩
        rcases (readMember_form_iff regular.discerns).mp first with ⟨rfl, fresh, stored, rfl⟩
        rcases (ih remains).mp ⟨after, later⟩ with ⟨takes, once, unseen⟩
        refine ⟨List.forall_mem_cons.mpr ⟨?_, takes⟩, List.pairwise_cons.mpr ⟨?_, once⟩,
          List.forall_mem_cons.mpr ⟨?_, ?_⟩⟩
        · exact takesMember_of_setMember regular (fun known => (fresh known).2) stored
        · intro later member other known same
          cases same
          exact unseen later member _ List.mem_cons_self known
        · intro other seen known same
          cases same
          exact (fresh known).1 seen
        · exact fun later member name seen => unseen later member name (List.mem_cons_of_mem _ seen)
      · rintro ⟨takes, once, unseen⟩
        rcases List.forall_mem_cons.mp takes with ⟨first, takesOthers⟩
        rcases List.pairwise_cons.mp once with ⟨apart, onceOthers⟩
        rcases List.forall_mem_cons.mp unseen with ⟨fresh, unseenOthers⟩
        have named := first
        rcases named with ⟨taken, rfl, _⟩
        rcases exists_setMember regular first record with ⟨readable, next, stored⟩
        rw [(readMember_form_iff regular.discerns).mpr
          ⟨rfl, fun known => ⟨fun seen => fresh taken seen known rfl, readable known⟩, stored, rfl⟩]
        refine (ih remains).mpr ⟨takesOthers, onceOthers, ?_⟩
        intro later member name seen known
        rcases List.mem_cons.mp seen with rfl | seen
        · exact apart later member name known rfl
        · exact unseenOthers later member name seen known

theorem length_le_length_tokensOfMembers (members : List (Option String × Form)) :
    members.length ≤ (tokensOfMembers members).length := by
  induction members with
  | nil => exact Nat.le_refl _
  | cons member members ih =>
      rcases member with ⟨name, value⟩
      simp only [tokensOfMembers, List.length_cons, List.length_append]
      omega

/-- The members of an object are taken as if a comma stood before each of them. -/
theorem readTokens_object (members : List (Option String × Form)) (rest : List Token) :
    ∃ fuel, members.length < fuel ∧
      shape.readTokens ((Form.object members).tokens ++ rest) =
        shape.readMembers fuel [] shape.blank (tokensOfMembers members ++ (.closeObject :: rest)) := by
  rcases members with _ | ⟨⟨name, value⟩, members⟩
  · exact ⟨1, Nat.zero_lt_one, rfl⟩
  · have short := length_le_length_tokensOfMembers members
    refine ⟨(value.tokens ++ (tokensOfMembers members ++ (.closeObject :: rest))).length + 3, ?_, ?_⟩
    · simp only [List.length_append, List.length_cons]
      omega
    · simp only [Form.tokens, tokensOfMembers, List.cons_append, List.append_assoc, List.nil_append,
        readTokens, readObject, readMembers, List.length_cons]

theorem exists_readObject_iff (regular : shape.IsRegular) (members : List (Option String × Form)) :
    (∃ record, shape.readTokens ((Form.object members).tokens ++ rest) = .ok (record, rest)) ↔
      shape.Accepts (.object members) := by
  rcases shape.readTokens_object members rest with ⟨fuel, enough, read⟩
  rw [read, exists_readMembers_iff regular enough]
  exact ⟨fun ⟨takes, once, _⟩ => ⟨takes, once⟩, fun ⟨takes, once⟩ => ⟨takes, once, nofun⟩⟩

/-! ## Lists -/

theorem exists_readItems_iff (regular : shape.IsRegular) {fields : List (Field Record)}
    (areFields : ∀ field ∈ fields, field ∈ shape.fields) {items : List Form} {taken : Nat}
    {record : Record} :
    (∃ after, shape.readItems taken fields record (tokensOfItems items ++ (.closeList :: rest)) =
        .ok (after, rest)) ↔ shape.TakesItems fields items := by
  induction items generalizing fields taken record with
  | nil =>
      rw [TakesItems, tokensOfItems, List.nil_append, readItems]
      cases required : fields.any (·.required) <;> simp
  | cons item items ih =>
      rw [tokensOfItems, List.cons_append, List.append_assoc]
      cases fields with
      | nil => simp [TakesItems, readItems]
      | cons field fields =>
          rcases List.forall_mem_cons.mp areFields with ⟨isField, areFields⟩
          rw [TakesItems, readItems]
          constructor
          · rintro ⟨after, read⟩
            rcases exists_of_bind_eq_ok read with ⟨⟨next, others⟩, first, later⟩
            rcases (Field.read_form_iff (regular.discerns field isField)).mp first with
              ⟨readable, stored, rfl⟩
            exact ⟨(regular.exists_read_iff isField).mp ⟨next, first⟩, (ih areFields).mp ⟨after, later⟩⟩
          · rintro ⟨takes, others⟩
            rcases (regular.exists_read_iff isField).mpr takes with ⟨next, read⟩
            rw [read]
            exact (ih areFields).mpr others

/-- The items of a list are taken as if a comma stood before each of them. -/
theorem readTokens_list (items : List Form) (rest : List Token) :
    shape.readTokens ((Form.list items).tokens ++ rest) =
      shape.readItems 0 shape.fields shape.blank (tokensOfItems items ++ (.closeList :: rest)) := by
  cases items with
  | nil => rfl
  | cons item items =>
      simp only [Form.tokens, tokensOfItems, List.cons_append, List.append_assoc, List.nil_append,
        readTokens]
      -- the first token of an item does not close the list
      rcases item with _ | _ | _ | _ | (_ | _) | (_ | ⟨⟨_, _⟩, _⟩) <;> cases fields : shape.fields <;>
        simp [readList, readItems, Form.tokens, fields]

theorem exists_readList_iff (regular : shape.IsRegular) (items : List Form) :
    (∃ record, shape.readTokens ((Form.list items).tokens ++ rest) = .ok (record, rest)) ↔
      shape.Accepts (.list items) := by
  rw [readTokens_list]
  exact exists_readItems_iff regular fun field isField => isField

/-! ## Texts -/

theorem exists_readTokens_iff (regular : shape.IsRegular) :
    (∃ record, shape.readTokens (form.tokens ++ rest) = .ok (record, rest)) ↔
      shape.Accepts form := by
  cases form with
  | list items => exact exists_readList_iff regular items
  | object members => exact exists_readObject_iff regular members
  | _ =>
      simp only [Accepts, iff_false, not_exists]
      intro record read
      rcases exists_of_bind_eq_ok read with ⟨_, _, ⟨⟩⟩

/-- A text that spells a form holds a record if and only if the form is that of a record. -/
theorem exists_read_iff (regular : shape.IsRegular) {text : String} (spelled : form.IsSpelledBy text) :
    (∃ record, shape.read text = .ok record) ↔ shape.Accepts form := by
  have whole : (∃ record, shape.readTokens (form.tokens ++ []) = .ok (record, [])) ↔
      shape.Accepts form := exists_readTokens_iff regular
  rw [List.append_nil] at whole
  rw [← whole, read, spelled.tokens_eq]
  constructor
  · rintro ⟨record, read⟩
    rcases exists_of_bind_eq_ok read with ⟨⟨taken, left⟩, first, done⟩
    cases left with
    | nil => exact ⟨taken, first⟩
    | cons token left => cases done
  · rintro ⟨record, read⟩
    rw [read]
    exact ⟨record, rfl⟩

end Shape

end BehaviorTree.Json
