import BehaviorTree.Number.Numeral

/-!
# JSON tokens

A text is cut into tokens from the left.  A token that is not complete or not well formed ends the
list, since nothing can be read past it.

Values that are skipped are held to weaker rules than values that are read: their texts may hold
half of a surrogate pair, and a number that the end of the text cuts off is malformed instead of
incomplete.  A broken token therefore carries two failures.
-/

namespace BehaviorTree.Json

open BehaviorTree.Number

/-- Why a document can not be read. -/
inductive Failure where
  /-- The text ends before the document does. -/
  | unfinished
  /-- The text is not JSON. -/
  | malformed
  /-- A value does not fit the place where it stands. -/
  | unfit (reason : String)
deriving DecidableEq, Repr

/-- Whether a value is read or skipped. -/
inductive Purpose where
  | read
  | skip
deriving DecidableEq, Repr

inductive Token where
  | openList
  | closeList
  | openObject
  | closeObject
  | comma
  | colon
  | null
  | boolean (value : Bool)
  | number (numeral : Numeral)
  /-- A text, or nothing if its escapes do not form characters. -/
  | text (content : Option String)
  | brokenText (reading skipping : Failure)
  /-- A word or a number that is not complete, or a character that starts no token. -/
  | broken (reading skipping : Failure)
deriving DecidableEq, Repr

def isBlank (character : Char) : Bool :=
  character = ' ' || character = '\t' || character = '\n' || character = '\r'

/-! ## Texts -/

/-- The value of a hexadecimal digit. -/
def hexDigit? (character : Char) : Option Nat :=
  if '0' ≤ character ∧ character ≤ '9' then some (character.toNat - '0'.toNat)
  else if 'a' ≤ character ∧ character ≤ 'f' then some (character.toNat - 'a'.toNat + 10)
  else if 'A' ≤ character ∧ character ≤ 'F' then some (character.toNat - 'A'.toNat + 10)
  else none

/-- The number that four hexadecimal digits write. -/
def fourHexDigits? (a b c d : Char) : Option Nat := do
  let a ← hexDigit? a
  let b ← hexDigit? b
  let c ← hexDigit? c
  let d ← hexDigit? d
  return ((a * 16 + b) * 16 + c) * 16 + d

/-- The character that a backslash and another character stand for. -/
def shortEscape? : Char → Option Char
  | '"' => some '"'
  | '\\' => some '\\'
  | '/' => some '/'
  | 'b' => some '\x08'
  | 'f' => some '\x0c'
  | 'n' => some '\n'
  | 'r' => some '\r'
  | 't' => some '\t'
  | _ => none

def isLeadingSurrogate (unit : Nat) : Bool :=
  0xD800 ≤ unit && unit ≤ 0xDBFF

def isTrailingSurrogate (unit : Nat) : Bool :=
  0xDC00 ≤ unit && unit ≤ 0xDFFF

/-- The character of a surrogate pair. -/
def ofSurrogates (leading trailing : Nat) : Char :=
  Char.ofNat (0x10000 + (leading - 0xD800) * 0x400 + (trailing - 0xDC00))

/-- What is wrong with an escape whose four digits can not be read: with fewer than four bytes left
the text ends too early. -/
def escapeFailure (rest : List Char) : Failure :=
  if (rest.take 4).foldl (fun size character => size + character.utf8Size) 0 < 4 then .unfinished
  else .malformed

/-- The characters of a text read so far, the last one first. -/
inductive Content where
  | whole (reversed : List Char)
  /-- An escape for a leading surrogate waits for its other half. -/
  | half (reversed : List Char) (leading : Nat)
  /-- The escapes do not form characters. -/
  | spoiled

namespace Content

def addCharacter (character : Char) : Content → Content
  | .whole reversed => .whole (character :: reversed)
  | .half _ _ => .spoiled
  | .spoiled => .spoiled

/-- One more escape of four digits. -/
def addUnit (unit : Nat) : Content → Content
  | .whole reversed =>
      if isTrailingSurrogate unit then .spoiled
      else if isLeadingSurrogate unit then .half reversed unit
      else .whole (Char.ofNat unit :: reversed)
  | .half reversed leading =>
      if isTrailingSurrogate unit then .whole (ofSurrogates leading unit :: reversed) else .spoiled
  | .spoiled => .spoiled

def finished : Content → Option String
  | .whole reversed => some (String.ofList reversed.reverse)
  | _ => none

/-- A text broken off by a failure.  Where its escapes have already failed to form characters,
reading has stopped at that point. -/
def brokenOff (failure : Failure) : Content → Token × List Char
  | .spoiled => (.brokenText .malformed failure, [])
  | _ => (.brokenText failure failure, [])

end Content

/-- The rest of a text, after its opening quote: the token and what follows it. -/
def scanText (content : Content) : List Char → Token × List Char
  | [] => content.brokenOff .unfinished
  | '"' :: rest => (.text content.finished, rest)
  | ['\\'] => content.brokenOff .unfinished
  | '\\' :: 'u' :: a :: b :: c :: d :: rest =>
      match fourHexDigits? a b c d with
      | none => content.brokenOff (escapeFailure (a :: b :: c :: d :: rest))
      | some unit => scanText (content.addUnit unit) rest
  | '\\' :: 'u' :: rest => content.brokenOff (escapeFailure rest)
  | '\\' :: escaped :: rest =>
      match shortEscape? escaped with
      | none => content.brokenOff .malformed
      | some character => scanText (content.addCharacter character) rest
  | character :: rest =>
      if character.toNat < 0x20 then content.brokenOff .malformed
      else scanText (content.addCharacter character) rest

/-! ## Numbers -/

/-- The decimal digit that a character is. -/
def digit? (character : Char) : Option (Fin 10) :=
  if '0' ≤ character ∧ character ≤ '9' then some (lastDigit (character.toNat - '0'.toNat))
  else none

/-- The digits at the front of a text, and the rest. -/
def scanDigits : List Char → List (Fin 10) × List Char
  | [] => ([], [])
  | character :: rest =>
      match digit? character with
      | none => ([], character :: rest)
      | some digit =>
          let (digits, remaining) := scanDigits rest
          (digit :: digits, remaining)

/-- A number that breaks off before `rest`.  One that is skipped counts as malformed at the end too.
-/
def brokenNumber (rest : List Char) : Token × List Char :=
  (.broken (if rest.isEmpty then .unfinished else .malformed) .malformed, [])

/-- The exponent of a number, after its letter. -/
def scanExponent (numeral : Numeral) (characters : List Char) : Token × List Char :=
  let (negative, characters) := match characters with
    | '+' :: rest => (false, rest)
    | '-' :: rest => (true, rest)
    | characters => (false, characters)
  match scanDigits characters with
  | ([], rest) => brokenNumber rest
  | (digits, rest) =>
      let exponent : Int := ofDigits digits
      (.number { numeral with exponent := some (if negative then -exponent else exponent) }, rest)

/-- An exponent, if there is one. -/
def scanOptionalExponent (numeral : Numeral) : List Char → Token × List Char
  | 'e' :: rest => scanExponent numeral rest
  | 'E' :: rest => scanExponent numeral rest
  | rest => (.number numeral, rest)

/-- A number, after its sign. -/
def scanNumber (negative : Bool) (characters : List Char) : Token × List Char :=
  match scanDigits characters with
  | ([], rest) => brokenNumber rest
  | (0 :: _ :: _, _) => (.broken .malformed .malformed, [])
  | (whole, rest) =>
      let numeral : Numeral := ⟨negative, ofDigits whole, [], none⟩
      match rest with
      | '.' :: rest =>
          match scanDigits rest with
          | ([], rest) => brokenNumber rest
          | (fraction, rest) => scanOptionalExponent { numeral with fraction } rest
      | rest => scanOptionalExponent numeral rest

/-! ## Tokens -/

/-- A word, after its first character. -/
def scanWord (token : Token) : List Char → List Char → Token × List Char
  | [], rest => (token, rest)
  | _ :: _, [] => (.broken .unfinished .unfinished, [])
  | expected :: word, character :: rest =>
      if character = expected then scanWord token word rest else (.broken .malformed .malformed, [])

/-- The token that starts with a character, and what follows it. -/
def scanToken (first : Char) (rest : List Char) : Token × List Char :=
  match first with
  | '[' => (.openList, rest)
  | ']' => (.closeList, rest)
  | '\x7b' => (.openObject, rest)
  | '\x7d' => (.closeObject, rest)
  | ',' => (.comma, rest)
  | ':' => (.colon, rest)
  | '"' => scanText (.whole []) rest
  | 'n' => scanWord .null ['u', 'l', 'l'] rest
  | 't' => scanWord (.boolean true) ['r', 'u', 'e'] rest
  | 'f' => scanWord (.boolean false) ['a', 'l', 's', 'e'] rest
  | '-' => scanNumber true rest
  | first =>
      if (digit? first).isSome then scanNumber false (first :: rest)
      else (.broken .malformed .malformed, [])

/-- The tokens of a text; every token takes at least one of its `fuel` characters. -/
def scanTokens : Nat → List Char → List Token
  | 0, _ => []
  | _ + 1, [] => []
  | fuel + 1, character :: rest =>
      if isBlank character then scanTokens fuel rest
      else
        let (token, rest) := scanToken character rest
        token :: scanTokens fuel rest

/-- The tokens of a text. -/
def tokens (text : String) : List Token :=
  scanTokens text.toList.length text.toList

end BehaviorTree.Json
