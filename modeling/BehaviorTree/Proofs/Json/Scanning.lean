import BehaviorTree.Json.Value
import BehaviorTree.Proofs.Json.Grammar

/-!
# Tokens of texts

A text that spells a form is cut into the tokens of that form, whatever its layout.  Only a number
depends on what follows it, since that must not continue it.

What is written for a value spells that value, and so it is cut into its tokens.
-/

namespace BehaviorTree.Json

open BehaviorTree.Number

/-! ## The tokens of a form and of a value -/

mutual

def Form.tokens : Form → List Token
  | .null => [.null]
  | .boolean value => [.boolean value]
  | .number numeral => [.number numeral]
  | .text content => [.text content]
  | .list [] => [.openList, .closeList]
  | .list (item :: items) => .openList :: (item.tokens ++ (tokensOfItems items ++ [.closeList]))
  | .object [] => [.openObject, .closeObject]
  | .object ((name, value) :: members) =>
      .openObject :: .text name :: .colon ::
        (value.tokens ++ (tokensOfMembers members ++ [.closeObject]))

/-- The tokens of the items after the first. -/
def tokensOfItems : List Form → List Token
  | [] => []
  | item :: items => .comma :: (item.tokens ++ tokensOfItems items)

/-- The tokens of the members after the first. -/
def tokensOfMembers : List (Option String × Form) → List Token
  | [] => []
  | (name, value) :: members =>
      .comma :: .text name :: .colon :: (value.tokens ++ tokensOfMembers members)

end

mutual

def Value.tokens : Value → List Token
  | .null => [.null]
  | .boolean value => [.boolean value]
  | .number numeral => [.number numeral]
  | .text content => [.text (some content)]
  | .list [] => [.openList, .closeList]
  | .list (item :: items) =>
      .openList :: (item.tokens ++ (remainingItemTokens items ++ [.closeList]))
  | .object [] => [.openObject, .closeObject]
  | .object ((name, value) :: members) =>
      .openObject :: .text (some name) :: .colon ::
        (value.tokens ++ (remainingMemberTokens members ++ [.closeObject]))

/-- The tokens of the items after the first. -/
def remainingItemTokens : List Value → List Token
  | [] => []
  | item :: items => .comma :: (item.tokens ++ remainingItemTokens items)

/-- The tokens of the members after the first. -/
def remainingMemberTokens : List (String × Value) → List Token
  | [] => []
  | (name, value) :: members =>
      .comma :: .text (some name) :: .colon :: (value.tokens ++ remainingMemberTokens members)

end

mutual

/-- The form of a value. -/
def Value.form : Value → Form
  | .null => .null
  | .boolean value => .boolean value
  | .number numeral => .number numeral
  | .text content => .text (some content)
  | .list items => .list (formsOfItems items)
  | .object members => .object (formsOfMembers members)

def formsOfItems : List Value → List Form
  | [] => []
  | item :: items => item.form :: formsOfItems items

def formsOfMembers : List (String × Value) → List (Option String × Form)
  | [] => []
  | (name, value) :: members => (some name, value.form) :: formsOfMembers members

end

mutual

theorem Value.tokens_form : ∀ value : Value, value.form.tokens = value.tokens
  | .null => rfl
  | .boolean _ => rfl
  | .number _ => rfl
  | .text _ => rfl
  | .list [] => rfl
  | .list (item :: items) => by
      rw [Value.form, formsOfItems, Form.tokens, Value.tokens, Value.tokens_form item,
        tokensOfItems_forms items]
  | .object [] => rfl
  | .object ((name, value) :: members) => by
      rw [Value.form, formsOfMembers, Form.tokens, Value.tokens, Value.tokens_form value,
        tokensOfMembers_forms members]

theorem tokensOfItems_forms : ∀ items : List Value,
    tokensOfItems (formsOfItems items) = remainingItemTokens items
  | [] => rfl
  | item :: items => by
      rw [formsOfItems, tokensOfItems, remainingItemTokens, Value.tokens_form item,
        tokensOfItems_forms items]

theorem tokensOfMembers_forms : ∀ members : List (String × Value),
    tokensOfMembers (formsOfMembers members) = remainingMemberTokens members
  | [] => rfl
  | (name, value) :: members => by
      rw [formsOfMembers, tokensOfMembers, remainingMemberTokens, Value.tokens_form value,
        tokensOfMembers_forms members]

end

/-! ## Scanning step by step -/

/-- The characters are cut into the tokens, with any fuel that is enough. -/
def Scans (characters : List Char) (tokens : List Token) : Prop :=
  ∀ fuel, characters.length ≤ fuel → scanTokens fuel characters = tokens

variable {front rest : List Char} {tokens : List Token}

namespace Scans

theorem nil : Scans [] [] := by
  rintro (_ | fuel) _ <;> rfl

theorem token {first : Char} {token : Token} (scanned : scanToken first front = (token, rest))
    (notBlank : isBlank first = false) (shorter : rest.length ≤ front.length)
    (scans : Scans rest tokens) : Scans (first :: front) (token :: tokens) := by
  rintro (_ | fuel) enough
  · simp at enough
  · rw [List.length_cons, Nat.add_le_add_iff_right] at enough
    rw [scanTokens, if_neg (by simp [notBlank])]
    simp only [scanned]
    rw [scans fuel (by omega)]

theorem blanks (spelled : SpellsBlanks front rest) (scans : Scans rest tokens) :
    Scans front tokens := by
  induction spelled with
  | none => exact scans
  | blank isBlank _ ih =>
      rintro (_ | fuel) enough
      · simp at enough
      · rw [List.length_cons, Nat.add_le_add_iff_right] at enough
        rw [scanTokens, if_pos isBlank]
        exact ih scans fuel enough

/-- A character that is a token by itself. -/
theorem mark {mark : Char} {token : Token}
    (scanned : ∀ characters, scanToken mark characters = (token, characters))
    (notBlank : isBlank mark = false) (spelled : SpellsMark mark front rest)
    (scans : Scans rest tokens) : Scans front (token :: tokens) := by
  rcases spelled with ⟨before, after⟩
  exact blanks before (Scans.token (scanned _) notBlank (Nat.le_refl _) (blanks after scans))

theorem openList (spelled : SpellsMark '[' front rest) (scans : Scans rest tokens) :
    Scans front (.openList :: tokens) :=
  mark (fun _ => rfl) (by decide) spelled scans

theorem closeList (spelled : SpellsMark ']' front rest) (scans : Scans rest tokens) :
    Scans front (.closeList :: tokens) :=
  mark (fun _ => rfl) (by decide) spelled scans

theorem openObject (spelled : SpellsMark '\x7b' front rest) (scans : Scans rest tokens) :
    Scans front (.openObject :: tokens) :=
  mark (fun _ => rfl) (by decide) spelled scans

theorem closeObject (spelled : SpellsMark '\x7d' front rest) (scans : Scans rest tokens) :
    Scans front (.closeObject :: tokens) :=
  mark (fun _ => rfl) (by decide) spelled scans

theorem comma (spelled : SpellsMark ',' front rest) (scans : Scans rest tokens) :
    Scans front (.comma :: tokens) :=
  mark (fun _ => rfl) (by decide) spelled scans

theorem colon (spelled : SpellsMark ':' front rest) (scans : Scans rest tokens) :
    Scans front (.colon :: tokens) :=
  mark (fun _ => rfl) (by decide) spelled scans

end Scans

/-! ## Texts -/

theorem SpellsElement.length_lt {element : Element} (spelled : SpellsElement front element rest) :
    rest.length < front.length := by
  cases spelled <;> simp only [List.length_cons] <;> omega

theorem SpellsElements.length_lt {elements : List Element}
    (spelled : SpellsElements front elements rest) : rest.length < front.length := by
  induction spelled with
  | quote => exact Nat.lt_succ_self _
  | element first _ ih => exact Nat.lt_trans ih first.length_lt

theorem scanText_element (content : Content) {element : Element}
    (spelled : SpellsElement front element rest) :
    scanText content front = scanText (content.addElement element) rest := by
  cases spelled with
  | plain noQuote noBackslash noControl =>
      rw [scanText, if_neg noControl]
      · rfl
      all_goals simp_all
  | @short escaped character _ escape =>
      have noUnit : escaped ≠ 'u' := by
        rintro rfl
        cases escape
      rw [scanText, escape]
      · rfl
      all_goals simp_all
  | unit digits =>
      rw [scanText, digits]
      rfl

theorem scanText_elements (content : Content) {elements : List Element}
    (spelled : SpellsElements front elements rest) :
    scanText content front = (.text (elements.foldl Content.addElement content).finished, rest) := by
  induction spelled generalizing content with
  | quote => rfl
  | element first _ ih => rw [scanText_element content first, ih, List.foldl_cons]

theorem Scans.text {content : Option String} (spelled : SpellsText front content rest)
    (scans : Scans rest tokens) : Scans front (.text content :: tokens) := by
  rcases spelled with ⟨elements⟩
  exact Scans.token (scanText_elements _ elements) (by decide) (Nat.le_of_lt elements.length_lt) scans

/-! ## Numbers -/

/-- What follows does not continue the digits of a number. -/
def EndsDigits : List Char → Prop
  | [] => True
  | character :: _ => digit? character = none

/-- What follows does not continue a number. -/
def EndsNumber : List Char → Prop
  | [] => True
  | character :: _ =>
      digit? character = none ∧ character ≠ '.' ∧ character ≠ 'e' ∧ character ≠ 'E'

theorem EndsNumber.endsDigits (ends : EndsNumber rest) : EndsDigits rest := by
  cases rest with
  | nil => trivial
  | cons character rest => exact ends.1

theorem SpellsExponent.endsDigits {exponent : Option Int}
    (spelled : SpellsExponent front exponent rest) (ends : EndsNumber rest) : EndsDigits front := by
  cases spelled with
  | absent => exact ends.endsDigits
  | letter letter_eq =>
      rcases letter_eq with rfl | rfl
      · exact (by decide : digit? 'e' = none)
      · exact (by decide : digit? 'E' = none)

theorem SpellsFraction.endsDigits {fraction : List (Fin 10)}
    (spelled : SpellsFraction front fraction rest) (ends : EndsDigits rest) : EndsDigits front := by
  cases spelled with
  | absent => exact ends
  | point => exact (by decide : digit? '.' = none)

theorem SpellsExponent.length_le {exponent : Option Int}
    (spelled : SpellsExponent front exponent rest) : rest.length ≤ front.length := by
  cases spelled with
  | absent => exact Nat.le_refl _
  | letter _ _ sign =>
      cases sign <;> simp only [List.length_cons, List.length_append] <;> omega

theorem SpellsFraction.length_le {fraction : List (Fin 10)}
    (spelled : SpellsFraction front fraction rest) : rest.length ≤ front.length := by
  cases spelled with
  | absent => exact Nat.le_refl _
  | point => simp only [List.length_cons, List.length_append]; omega

theorem digit?_digitChar : ∀ digit : Fin 10, digit? (digitChar digit) = some digit := by
  decide

theorem scanDigits_map_digitChar (digits : List (Fin 10)) (ends : EndsDigits rest) :
    scanDigits (digits.map digitChar ++ rest) = (digits, rest) := by
  induction digits with
  | nil =>
      cases rest with
      | nil => rfl
      | cons character rest =>
          have noDigit : digit? character = none := ends
          simp [scanDigits, noDigit]
  | cons digit digits ih =>
      simp [scanDigits, digit?_digitChar, ih]

theorem digitChar_ne_sign : ∀ digit : Fin 10, digitChar digit ≠ '+' ∧ digitChar digit ≠ '-' := by
  decide

theorem scanExponent_spelled (numeral : Numeral) {negative : Bool} {digits : List (Fin 10)}
    (some : digits ≠ []) (sign : SpellsSign front negative (digits.map digitChar ++ rest))
    (ends : EndsNumber rest) :
    scanExponent numeral front =
      (.number { numeral with
        exponent := .some (if negative then -(ofDigits digits : Int) else ofDigits digits) }, rest) := by
  have scanned := scanDigits_map_digitChar digits ends.endsDigits
  rcases digits with _ | ⟨first, digits⟩
  · exact absurd rfl some
  rw [List.map_cons, List.cons_append] at scanned sign
  cases sign with
  | absent =>
      rcases digitChar_ne_sign first with ⟨noPlus, noMinus⟩
      rw [scanExponent.eq_def]
      split
      all_goals simp_all
  | plus => simp [scanExponent, scanned]
  | minus => simp [scanExponent, scanned]

theorem scanOptionalExponent_spelled (numeral : Numeral) {exponent : Option Int}
    (none : numeral.exponent = none) (spelled : SpellsExponent front exponent rest)
    (ends : EndsNumber rest) :
    scanOptionalExponent numeral front = (.number { numeral with exponent }, rest) := by
  cases spelled with
  | absent =>
      have same : { numeral with exponent := Option.none } = numeral := by rw [← none]
      rw [same]
      cases front with
      | nil => rfl
      | cons character front =>
          rcases ends with ⟨_, _, noSmall, noLarge⟩
          rw [scanOptionalExponent.eq_def]
          split <;> simp_all
  | letter letter_eq some sign =>
      have scanned := scanExponent_spelled numeral some sign ends
      rcases letter_eq with rfl | rfl <;> exact scanned

/-- A number, after its whole part. -/
def scanTail (numeral : Numeral) : List Char → Token × List Char
  | '.' :: rest =>
      match scanDigits rest with
      | ([], rest) => brokenNumber rest
      | (fraction, rest) => scanOptionalExponent { numeral with fraction } rest
  | rest => scanOptionalExponent numeral rest

theorem scanTail_spelled (negative : Bool) (whole : Nat) {fraction : List (Fin 10)}
    {exponent : Option Int} {between : List Char} (afterWhole : SpellsFraction front fraction between)
    (afterFraction : SpellsExponent between exponent rest) (ends : EndsNumber rest) :
    scanTail ⟨negative, whole, [], none⟩ front =
      (.number ⟨negative, whole, fraction, exponent⟩, rest) := by
  have scanned := scanOptionalExponent_spelled ⟨negative, whole, fraction, none⟩ rfl afterFraction ends
  cases afterWhole with
  | absent =>
      rw [← scanned, scanTail.eq_def]
      split
      · next point =>
          -- a point would continue the number
          cases afterFraction with
          | absent => exact absurd rfl ends.2.1
          | letter letter_eq => rcases letter_eq with same | same <;> cases same
      · rfl
  | point some =>
      have follows := scanDigits_map_digitChar fraction (afterFraction.endsDigits ends)
      rcases fraction with _ | ⟨first, digits⟩
      · exact absurd rfl some
      rw [scanTail, follows]
      exact scanned

theorem scanNumber_spelled (negative : Bool) {whole fraction : List (Fin 10)} {exponent : Option Int}
    {between : List Char} (isWhole : IsWhole whole) (afterWhole : SpellsFraction front fraction between)
    (afterFraction : SpellsExponent between exponent rest) (ends : EndsNumber rest) :
    scanNumber negative (whole.map digitChar ++ front) =
      (.number ⟨negative, ofDigits whole, fraction, exponent⟩, rest) := by
  have scanned := scanDigits_map_digitChar whole
    (afterWhole.endsDigits (afterFraction.endsDigits ends))
  have followed := scanTail_spelled negative (ofDigits whole) afterWhole afterFraction ends
  rw [scanNumber, scanned]
  split
  · next empty => exact absurd (Prod.mk.inj empty).1 isWhole.some
  · next longer => exact absurd (isWhole.noZero _ (Prod.mk.inj longer).1) (List.cons_ne_nil _ _)
  · next same =>
      rcases Prod.mk.inj same with ⟨rfl, rfl⟩
      exact followed

theorem scanToken_digitChar (digit : Fin 10) (rest : List Char) :
    scanToken (digitChar digit) rest = scanNumber false (digitChar digit :: rest) := by
  match digit with
  | 0 | 1 | 2 | 3 | 4 | 5 | 6 | 7 | 8 | 9 => rfl

theorem isBlank_digitChar : ∀ digit : Fin 10, isBlank (digitChar digit) = false := by
  decide

theorem Scans.number {numeral : Numeral} (spelled : SpellsNumber front numeral rest)
    (ends : EndsNumber rest) (scans : Scans rest tokens) :
    Scans front (.number numeral :: tokens) := by
  cases spelled with
  | @unsigned whole _ _ _ _ _ isWhole afterWhole afterFraction =>
      have shorter := Nat.le_trans afterFraction.length_le afterWhole.length_le
      have scanned := scanNumber_spelled false isWhole afterWhole afterFraction ends
      rcases whole with _ | ⟨first, others⟩
      · exact absurd rfl isWhole.some
      rw [List.map_cons, List.cons_append] at scanned ⊢
      refine Scans.token ?_ (isBlank_digitChar first) ?_ scans
      · rw [scanToken_digitChar]
        exact scanned
      · rw [List.length_append]
        omega
  | minus isWhole afterWhole afterFraction =>
      have shorter := Nat.le_trans afterFraction.length_le afterWhole.length_le
      refine Scans.token (scanNumber_spelled true isWhole afterWhole afterFraction ends) (by decide) ?_
        scans
      rw [List.length_append]
      omega

/-! ## Forms -/

theorem SpellsBlanks.endsNumber (spelled : SpellsBlanks front rest) (ends : EndsNumber rest) :
    EndsNumber front := by
  cases spelled with
  | none => exact ends
  | @blank character _ _ blank =>
      simp only [isBlank, Bool.or_eq_true, decide_eq_true_eq] at blank
      rcases blank with ((rfl | rfl) | rfl) | rfl <;> exact ⟨by decide, by decide, by decide, by decide⟩

theorem SpellsMark.endsNumber {mark : Char} (spelled : SpellsMark mark front rest)
    (ends : EndsNumber [mark]) : EndsNumber front := by
  rcases spelled with ⟨before, _⟩
  exact before.endsNumber ends

theorem endsNumber_comma : EndsNumber [','] :=
  ⟨by decide, by decide, by decide, by decide⟩

theorem endsNumber_closeList : EndsNumber [']'] :=
  ⟨by decide, by decide, by decide, by decide⟩

theorem endsNumber_closeObject : EndsNumber ['\x7d'] :=
  ⟨by decide, by decide, by decide, by decide⟩

theorem SpellsItems.endsNumber {items : List Form} (spelled : SpellsItems front items rest)
    (ends : EndsNumber rest) : EndsNumber front := by
  cases spelled with
  | none => exact ends
  | item comma => exact comma.endsNumber endsNumber_comma

theorem SpellsMembers.endsNumber {members : List (Option String × Form)}
    (spelled : SpellsMembers front members rest) (ends : EndsNumber rest) : EndsNumber front := by
  cases spelled with
  | none => exact ends
  | member comma => exact comma.endsNumber endsNumber_comma

namespace Scans

mutual

/-- The induction is on the form; the layout is taken apart along with it. -/
theorem form : ∀ (form : Form) {front rest : List Char} {tokens : List Token},
    Spells front form rest → EndsNumber rest → Scans rest tokens → Scans front (form.tokens ++ tokens)
  | .null, _, _, _, .null, _, scans => Scans.token rfl (by decide) (by grind) scans
  | .boolean true, _, _, _, .true, _, scans =>
      Scans.token rfl (by decide) (by grind) scans
  | .boolean false, _, _, _, .false, _, scans =>
      Scans.token rfl (by decide) (by grind) scans
  | .number _, _, _, _, .number spelled, ends, scans => Scans.number spelled ends scans
  | .text _, _, _, _, .text spelled, _, scans => Scans.text spelled scans
  | .list [], _, _, _, .emptyList opens closes, _, scans => openList opens (closeList closes scans)
  | .list (item :: items), _, _, _, .list opens first others closes, _, scans => by
      have closed := closes.endsNumber endsNumber_closeList
      have last := itemForms items others closed (closeList closes scans)
      have all := openList opens (form item first (others.endsNumber closed) last)
      simpa [Form.tokens] using all
  | .object [], _, _, _, .emptyObject opens closes, _, scans =>
      openObject opens (closeObject closes scans)
  | .object ((name, value) :: members), _, _, _, .object opens (.member named colon first) others
      closes, _, scans => by
      have closed := closes.endsNumber endsNumber_closeObject
      have last := memberForms members others closed (closeObject closes scans)
      have all := openObject opens (Scans.text named
        (Scans.colon colon (form value first (others.endsNumber closed) last)))
      simpa [Form.tokens] using all

theorem itemForms : ∀ (items : List Form) {front rest : List Char} {tokens : List Token},
    SpellsItems front items rest → EndsNumber rest → Scans rest tokens →
      Scans front (tokensOfItems items ++ tokens)
  | [], _, _, _, .none, _, scans => scans
  | item :: items, _, _, _, .item comma first others, ends, scans => by
      have last := itemForms items others ends scans
      have all := Scans.comma comma (form item first (others.endsNumber ends) last)
      simpa [tokensOfItems] using all

theorem memberForms : ∀ (members : List (Option String × Form)) {front rest : List Char}
    {tokens : List Token}, SpellsMembers front members rest → EndsNumber rest → Scans rest tokens →
      Scans front (tokensOfMembers members ++ tokens)
  | [], _, _, _, .none, _, scans => scans
  | (name, value) :: members, _, _, _, .member comma (.member named colon first) others, ends,
      scans => by
      have last := memberForms members others ends scans
      have all := Scans.comma comma (Scans.text named
        (Scans.colon colon (form value first (others.endsNumber ends) last)))
      simpa [tokensOfMembers] using all

end

end Scans

/-- A text is cut into the tokens of the form that it spells. -/
theorem Form.IsSpelledBy.tokens_eq {form : Form} {text : String} (spelled : form.IsSpelledBy text) :
    Json.tokens text = form.tokens := by
  rcases spelled with ⟨front, rest, before, spelled, after⟩
  have ends : EndsNumber rest := after.endsNumber trivial
  have scans := Scans.blanks before (Scans.form form spelled ends (Scans.blanks after Scans.nil))
  rw [List.append_nil] at scans
  exact scans _ (Nat.le_refl _)

end BehaviorTree.Json
