import BehaviorTree.Json.Token

/-!
# The grammar of JSON

A form is what a text says when its layout is left out.  The grammar relates the characters at the
front of a text, up to those that follow, to what they spell, without saying how they are read.

Forms are more than values.  The escapes of a text may be halves of characters, an object may repeat
a name, a number may be out of range, and nesting has no bound.
-/

namespace BehaviorTree.Json

open BehaviorTree.Number

/-- A JSON text without its layout.  A text in it is nothing if its escapes do not form characters. -/
inductive Form where
  | null
  | boolean (value : Bool)
  | number (numeral : Numeral)
  | text (content : Option String)
  | list (items : List Form)
  | object (members : List (Option String × Form))

/-! ## Texts -/

/-- An element of a text: a character, or an escape of four digits, which may be half of one. -/
inductive Element where
  | character (character : Char)
  | unit (unit : Nat)

def Content.addElement (content : Content) : Element → Content
  | .character character => content.addCharacter character
  | .unit unit => content.addUnit unit

/-- What the elements of a text form together. -/
def contentOf (elements : List Element) : Option String :=
  (elements.foldl Content.addElement (.whole [])).finished

inductive SpellsElement : List Char → Element → List Char → Prop where
  | plain {character : Char} {rest : List Char} (noQuote : character ≠ '"')
      (noBackslash : character ≠ '\\') (noControl : ¬character.toNat < 0x20) :
      SpellsElement (character :: rest) (.character character) rest
  | short {escaped character : Char} {rest : List Char}
      (escape : shortEscape? escaped = some character) :
      SpellsElement ('\\' :: escaped :: rest) (.character character) rest
  | unit {a b c d : Char} {unit : Nat} {rest : List Char}
      (digits : fourHexDigits? a b c d = some unit) :
      SpellsElement ('\\' :: 'u' :: a :: b :: c :: d :: rest) (.unit unit) rest

/-- The elements of a text, and its closing quote. -/
inductive SpellsElements : List Char → List Element → List Char → Prop where
  | quote {rest : List Char} : SpellsElements ('"' :: rest) [] rest
  | element {front between rest : List Char} {element : Element} {elements : List Element}
      (first : SpellsElement front element between)
      (others : SpellsElements between elements rest) :
      SpellsElements front (element :: elements) rest

inductive SpellsText : List Char → Option String → List Char → Prop where
  | quote {front rest : List Char} {elements : List Element}
      (spelled : SpellsElements front elements rest) :
      SpellsText ('"' :: front) (contentOf elements) rest

/-! ## Numbers -/

inductive SpellsFraction : List Char → List (Fin 10) → List Char → Prop where
  | absent {rest : List Char} : SpellsFraction rest [] rest
  | point {digits : List (Fin 10)} {rest : List Char} (some : digits ≠ []) :
      SpellsFraction ('.' :: (digits.map digitChar ++ rest)) digits rest

/-- The sign of an exponent: whether it is negative. -/
inductive SpellsSign : List Char → Bool → List Char → Prop where
  | absent {rest : List Char} : SpellsSign rest false rest
  | plus {rest : List Char} : SpellsSign ('+' :: rest) false rest
  | minus {rest : List Char} : SpellsSign ('-' :: rest) true rest

inductive SpellsExponent : List Char → Option Int → List Char → Prop where
  | absent {rest : List Char} : SpellsExponent rest none rest
  | letter {letter : Char} {negative : Bool} {digits : List (Fin 10)} {front rest : List Char}
      (letter_eq : letter = 'e' ∨ letter = 'E') (some : digits ≠ [])
      (sign : SpellsSign front negative (digits.map digitChar ++ rest)) :
      SpellsExponent (letter :: front)
        (.some (if negative then -(ofDigits digits : Int) else ofDigits digits)) rest

/-- The digits before the point: only a number that is less than one starts with a zero. -/
structure IsWhole (digits : List (Fin 10)) : Prop where
  some : digits ≠ []
  noZero : ∀ others, digits = 0 :: others → others = []

inductive SpellsNumber : List Char → Numeral → List Char → Prop where
  | unsigned {whole fraction : List (Fin 10)} {exponent : Option Int}
      {between front rest : List Char} (isWhole : IsWhole whole)
      (afterWhole : SpellsFraction front fraction between)
      (afterFraction : SpellsExponent between exponent rest) :
      SpellsNumber (whole.map digitChar ++ front) ⟨false, ofDigits whole, fraction, exponent⟩ rest
  | minus {whole fraction : List (Fin 10)} {exponent : Option Int}
      {between front rest : List Char} (isWhole : IsWhole whole)
      (afterWhole : SpellsFraction front fraction between)
      (afterFraction : SpellsExponent between exponent rest) :
      SpellsNumber ('-' :: (whole.map digitChar ++ front))
        ⟨true, ofDigits whole, fraction, exponent⟩ rest

/-! ## Forms -/

inductive SpellsBlanks : List Char → List Char → Prop where
  | none {rest : List Char} : SpellsBlanks rest rest
  | blank {character : Char} {front rest : List Char} (isBlank : isBlank character = true)
      (others : SpellsBlanks front rest) : SpellsBlanks (character :: front) rest

/-- A mark between values, with blanks around it. -/
inductive SpellsMark (mark : Char) : List Char → List Char → Prop where
  | mark {front between rest : List Char} (before : SpellsBlanks front (mark :: between))
      (after : SpellsBlanks between rest) : SpellsMark mark front rest

mutual

inductive Spells : List Char → Form → List Char → Prop where
  | null {rest : List Char} : Spells ('n' :: 'u' :: 'l' :: 'l' :: rest) .null rest
  | true {rest : List Char} : Spells ('t' :: 'r' :: 'u' :: 'e' :: rest) (.boolean true) rest
  | false {rest : List Char} : Spells ('f' :: 'a' :: 'l' :: 's' :: 'e' :: rest) (.boolean false) rest
  | number {front rest : List Char} {numeral : Numeral} (spelled : SpellsNumber front numeral rest) :
      Spells front (.number numeral) rest
  | text {front rest : List Char} {content : Option String}
      (spelled : SpellsText front content rest) : Spells front (.text content) rest
  | emptyList {front inside rest : List Char} (opens : SpellsMark '[' front inside)
      (closes : SpellsMark ']' inside rest) : Spells front (.list []) rest
  | list {front inside between last rest : List Char} {item : Form} {items : List Form}
      (opens : SpellsMark '[' front inside) (first : Spells inside item between)
      (others : SpellsItems between items last) (closes : SpellsMark ']' last rest) :
      Spells front (.list (item :: items)) rest
  | emptyObject {front inside rest : List Char} (opens : SpellsMark '\x7b' front inside)
      (closes : SpellsMark '\x7d' inside rest) : Spells front (.object []) rest
  | object {front inside between last rest : List Char} {name : Option String} {value : Form}
      {members : List (Option String × Form)} (opens : SpellsMark '\x7b' front inside)
      (first : SpellsMember inside name value between)
      (others : SpellsMembers between members last) (closes : SpellsMark '\x7d' last rest) :
      Spells front (.object ((name, value) :: members)) rest

/-- The items after the first. -/
inductive SpellsItems : List Char → List Form → List Char → Prop where
  | none {rest : List Char} : SpellsItems rest [] rest
  | item {front inside between rest : List Char} {item : Form} {items : List Form}
      (comma : SpellsMark ',' front inside) (first : Spells inside item between)
      (others : SpellsItems between items rest) : SpellsItems front (item :: items) rest

inductive SpellsMember : List Char → Option String → Form → List Char → Prop where
  | member {front between inside rest : List Char} {name : Option String} {value : Form}
      (named : SpellsText front name between) (colon : SpellsMark ':' between inside)
      (spelled : Spells inside value rest) : SpellsMember front name value rest

/-- The members after the first. -/
inductive SpellsMembers : List Char → List (Option String × Form) → List Char → Prop where
  | none {rest : List Char} : SpellsMembers rest [] rest
  | member {front inside between rest : List Char} {name : Option String} {value : Form}
      {members : List (Option String × Form)} (comma : SpellsMark ',' front inside)
      (first : SpellsMember inside name value between)
      (others : SpellsMembers between members rest) :
      SpellsMembers front ((name, value) :: members) rest

end

/-- The whole text, up to blanks around it, spells the form. -/
def Form.IsSpelledBy (form : Form) (text : String) : Prop :=
  ∃ front rest, SpellsBlanks text.toList front ∧ Spells front form rest ∧ SpellsBlanks rest []

end BehaviorTree.Json
