import BehaviorTree.Json.Printer
import BehaviorTree.Proofs.Json.Scanning
import BehaviorTree.Proofs.Number.Digits

/-!
# Written values

What is written for a value spells that value, so that it is cut into its tokens.
-/

namespace BehaviorTree.Json

open BehaviorTree.Number

variable {rest : List Char}

/-! ## Texts -/

theorem hexDigit?_hexDigit : ∀ value < 16, hexDigit? (hexDigit value) = some value := by
  decide

/-- The character whose escape has these digits. -/
theorem fourHexDigits?_control {character : Char} (control : character.toNat < 32) :
    fourHexDigits? '0' '0' (hexDigit (character.toNat / 16)) (hexDigit (character.toNat % 16)) =
      some character.toNat := by
  have high := hexDigit?_hexDigit (character.toNat / 16) (by omega)
  have low := hexDigit?_hexDigit (character.toNat % 16) (by omega)
  have zero : hexDigit? '0' = some 0 := by decide
  simp only [fourHexDigits?, zero, high, low]
  change some _ = _
  congr 1
  omega

theorem addUnit_control (reversed : List Char) {character : Char} (control : character.toNat < 32) :
    Content.addUnit character.toNat (.whole reversed) = .whole (character :: reversed) := by
  have noTrail : isTrailingSurrogate character.toNat = false := by
    simp only [isTrailingSurrogate, Bool.and_eq_false_iff, decide_eq_false_iff_not]
    omega
  have noLead : isLeadingSurrogate character.toNat = false := by
    simp only [isLeadingSurrogate, Bool.and_eq_false_iff, decide_eq_false_iff_not]
    omega
  simp [Content.addUnit, noTrail, noLead]

/-- Every character is spelled by its escape. -/
theorem exists_spellsElement_escapedCharacter (character : Char) (rest : List Char) :
    ∃ element, SpellsElement (escapedCharacter character ++ rest) element rest ∧
      ∀ reversed, Content.addElement (.whole reversed) element = .whole (character :: reversed) := by
  rw [escapedCharacter]
  split
  · next same => subst same; exact ⟨_, .short rfl, fun _ => rfl⟩
  split
  · next same => subst same; exact ⟨_, .short rfl, fun _ => rfl⟩
  split
  · next same => subst same; exact ⟨_, .short rfl, fun _ => rfl⟩
  split
  · next same => subst same; exact ⟨_, .short rfl, fun _ => rfl⟩
  split
  · next same => subst same; exact ⟨_, .short rfl, fun _ => rfl⟩
  split
  · next same => subst same; exact ⟨_, .short rfl, fun _ => rfl⟩
  split
  · next same => subst same; exact ⟨_, .short rfl, fun _ => rfl⟩
  split
  · next control =>
      exact ⟨.unit character.toNat, .unit (fourHexDigits?_control control),
        fun reversed => addUnit_control reversed control⟩
  · next noQuote noBackslash _ _ _ _ _ noControl =>
      exact ⟨.character character, .plain noQuote noBackslash noControl, fun _ => rfl⟩

theorem exists_spellsElements_escaped (characters rest : List Char) :
    ∃ elements, SpellsElements (characters.flatMap escapedCharacter ++ '"' :: rest) elements rest ∧
      ∀ reversed, elements.foldl Content.addElement (.whole reversed) =
        .whole (characters.reverse ++ reversed) := by
  induction characters with
  | nil => exact ⟨[], .quote, fun _ => rfl⟩
  | cons character characters ih =>
      rcases ih with ⟨elements, spelled, content⟩
      rcases exists_spellsElement_escapedCharacter character
        (characters.flatMap escapedCharacter ++ '"' :: rest) with ⟨element, first, added⟩
      rw [List.flatMap_cons, List.append_assoc]
      refine ⟨element :: elements, .element first spelled, fun reversed => ?_⟩
      rw [List.foldl_cons, added, content, List.reverse_cons, List.append_assoc,
        List.singleton_append]

theorem spellsText_writtenText (content : String) (rest : List Char) :
    SpellsText (writtenText content ++ rest) (some content) rest := by
  rcases exists_spellsElements_escaped content.toList rest with ⟨elements, spelled, formed⟩
  have same : contentOf elements = some content := by
    rw [contentOf, formed, List.append_nil, Content.finished, List.reverse_reverse,
      String.ofList_toList]
  have written : writtenText content ++ rest =
      '"' :: (content.toList.flatMap escapedCharacter ++ '"' :: rest) := by
    simp [writtenText]
  rw [written, ← same]
  exact .quote spelled

/-! ## Numbers -/

theorem isWhole_decimalDigits (value : Nat) : IsWhole (decimalDigits value) where
  some := decimalDigits_ne_nil value
  noZero _ zero := eq_nil_of_decimalDigits_eq_zero_cons zero

/-- The characters of an exponent. -/
def exponentCharacters : Option Int → List Char
  | none => []
  | some exponent =>
      'e' :: (if exponent < 0 then '-' else '+') :: (decimalDigits exponent.natAbs).map digitChar

theorem spellsExponent_characters (exponent : Option Int) (rest : List Char) :
    SpellsExponent (exponentCharacters exponent ++ rest) exponent rest := by
  cases exponent with
  | none => exact .absent
  | some exponent =>
      have nonempty := decimalDigits_ne_nil exponent.natAbs
      have written := ofDigits_decimalDigits exponent.natAbs
      rw [exponentCharacters, List.cons_append, List.cons_append]
      by_cases negative : exponent < 0
      · have spelled := SpellsExponent.letter (.inl rfl) nonempty
          (@SpellsSign.minus ((decimalDigits exponent.natAbs).map digitChar ++ rest))
        have value : -(exponent.natAbs : Int) = exponent := by omega
        rw [if_pos negative]
        rwa [if_pos rfl, written, value] at spelled
      · have spelled := SpellsExponent.letter (.inl rfl) nonempty
          (@SpellsSign.plus ((decimalDigits exponent.natAbs).map digitChar ++ rest))
        have value : (exponent.natAbs : Int) = exponent := by omega
        rw [if_neg negative]
        rwa [if_neg Bool.false_ne_true, written, value] at spelled

/-- The characters of a fraction. -/
def fractionCharacters (fraction : List (Fin 10)) : List Char :=
  if fraction = [] then [] else '.' :: fraction.map digitChar

theorem spellsFraction_characters (fraction : List (Fin 10)) (rest : List Char) :
    SpellsFraction (fractionCharacters fraction ++ rest) fraction rest := by
  rw [fractionCharacters]
  split
  · next none => exact none ▸ .absent
  · next some => exact .point some

theorem spellsNumber_characters (numeral : Numeral) (rest : List Char) :
    SpellsNumber (numeral.characters ++ rest) numeral rest := by
  rcases numeral with ⟨negative, whole, fraction, exponent⟩
  have isWhole := isWhole_decimalDigits whole
  have afterWhole := spellsFraction_characters fraction (exponentCharacters exponent ++ rest)
  have afterFraction := spellsExponent_characters exponent rest
  have characters : Numeral.characters ⟨negative, whole, fraction, exponent⟩ ++ rest =
      (if negative then ['-'] else []) ++ ((decimalDigits whole).map digitChar ++
        (fractionCharacters fraction ++ (exponentCharacters exponent ++ rest))) := by
    rw [Numeral.characters, fractionCharacters]
    cases exponent <;> simp [exponentCharacters]
  rw [characters]
  have written := ofDigits_decimalDigits whole
  cases negative with
  | true =>
      have spelled := SpellsNumber.minus isWhole afterWhole afterFraction
      rwa [written] at spelled
  | false =>
      have spelled := SpellsNumber.unsigned isWhole afterWhole afterFraction
      rwa [written] at spelled

/-! ## Values -/

theorem spellsBlanks_newLine (depth : Nat) (rest : List Char) :
    SpellsBlanks (newLine depth ++ rest) rest := by
  refine .blank (by decide) ?_
  generalize 2 * depth = width
  induction width with
  | zero => exact .none
  | succ width ih => exact .blank (by decide) ih

theorem spellsMark_newLine (mark : Char) (depth : Nat) (rest : List Char) :
    SpellsMark mark (mark :: (newLine depth ++ rest)) rest :=
  .mark .none (spellsBlanks_newLine depth rest)

theorem spellsMark_afterNewLine (mark : Char) (depth : Nat) (rest : List Char) :
    SpellsMark mark (newLine depth ++ (mark :: rest)) rest :=
  .mark (spellsBlanks_newLine depth _) .none

theorem spellsMark_colon (rest : List Char) : SpellsMark ':' (':' :: ' ' :: rest) rest :=
  .mark .none (.blank (by decide) .none)

mutual

theorem spells_characters : ∀ (value : Value) (depth : Nat) (rest : List Char),
    Spells (value.characters depth ++ rest) value.form rest
  | .null, _, _ => .null
  | .boolean true, _, _ => .true
  | .boolean false, _, _ => .false
  | .number numeral, _, rest => .number (spellsNumber_characters numeral rest)
  | .text content, _, rest => .text (spellsText_writtenText content rest)
  | .list [], _, _ => .emptyList (.mark .none .none) (.mark .none .none)
  | .list (item :: items), depth, rest => by
      have spelled := Spells.list (spellsMark_newLine '[' (depth + 1) _)
        (spells_characters item (depth + 1) _) (spells_remainingItems items (depth + 1) _)
        (spellsMark_afterNewLine ']' depth rest)
      simpa [Value.characters, Value.form, formsOfItems] using spelled
  | .object [], _, _ => .emptyObject (.mark .none .none) (.mark .none .none)
  | .object ((name, value) :: members), depth, rest => by
      have spelled := Spells.object (spellsMark_newLine '\x7b' (depth + 1) _)
        (.member (spellsText_writtenText name _) (spellsMark_colon _)
          (spells_characters value (depth + 1) _))
        (spells_remainingMembers members (depth + 1) _)
        (spellsMark_afterNewLine '\x7d' depth rest)
      simpa [Value.characters, Value.form, formsOfMembers] using spelled

theorem spells_remainingItems : ∀ (items : List Value) (depth : Nat) (rest : List Char),
    SpellsItems (remainingItems depth items ++ rest) (formsOfItems items) rest
  | [], _, _ => .none
  | item :: items, depth, rest => by
      have spelled := SpellsItems.item (spellsMark_newLine ',' depth _)
        (spells_characters item depth _) (spells_remainingItems items depth rest)
      simpa [remainingItems, formsOfItems] using spelled

theorem spells_remainingMembers : ∀ (members : List (String × Value)) (depth : Nat)
    (rest : List Char),
    SpellsMembers (remainingMembers depth members ++ rest) (formsOfMembers members) rest
  | [], _, _ => .none
  | (name, value) :: members, depth, rest => by
      have spelled := SpellsMembers.member (spellsMark_newLine ',' depth _)
        (.member (spellsText_writtenText name _) (spellsMark_colon _)
          (spells_characters value depth _))
        (spells_remainingMembers members depth rest)
      simpa [remainingMembers, formsOfMembers] using spelled

end

/-- What is written for a value is a JSON text, and it spells the value. -/
theorem isSpelledBy_render (value : Value) : value.form.IsSpelledBy value.render := by
  refine ⟨value.render.toList, [], .none, ?_, .none⟩
  have spelled := spells_characters value 0 []
  rw [List.append_nil] at spelled
  rwa [Value.render, String.toList_ofList]

/-- A written value is cut into its tokens. -/
theorem tokens_render (value : Value) : tokens value.render = value.tokens := by
  rw [(isSpelledBy_render value).tokens_eq, value.tokens_form]

end BehaviorTree.Json
