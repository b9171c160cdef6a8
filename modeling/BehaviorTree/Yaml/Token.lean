import BehaviorTree.Yaml.Scalar

/-!
# YAML tokens

A text is cut into tokens from the left.  Blocks have no brackets of their own: where a line is
indented deeper than the block around it, a block starts, and where a line is indented less, blocks
end.

A key need not be announced, so what may be the key of a mapping is only known to be one when a
colon follows on the same line, within 1024 bytes.  The token of the key, and that of the block
which it may start, are then put before it.
-/

namespace BehaviorTree.Yaml

inductive Directive where
  | version (major minor : Nat)
  /-- What a handle of tags stands for. -/
  | tag (handle meaning : String)
deriving DecidableEq, Repr

inductive Token where
  | directive (directive : Directive)
  | documentStart
  | documentEnd
  | sequenceStart
  | mappingStart
  | blockEnd
  | openBracket
  | closeBracket
  | openBrace
  | closeBrace
  | dash
  | comma
  | key
  | value
  | alias (name : String)
  | anchor (name : String)
  /-- A tag without a handle has a meaning of its own. -/
  | tag (handle rest : String)
  | scalar (style : Style) (text : String)
deriving DecidableEq, Repr

/-! ## Tags and directives -/

/-- The signs that stand in tags besides names; brackets and commas only between angles. -/
def isTagSign (angled : Bool) (character : Char) : Bool :=
  character ∈ [';', '/', '?', ':', '@', '&', '=', '+', '$', '.', '!', '~', '*', '\'', '(', ')'] ||
    (angled && character ∈ [',', '[', ']'])

/-- A byte that is written as a percent sign and two digits. -/
def scanByte : List Cell → Option (UInt8 × List Cell)
  | percent :: high :: low :: rest => do
      let high ← hexDigit? high.character
      let low ← hexDigit? low.character
      if percent.character = '%' then return ((high * 16 + low).toUInt8, rest) else none
  | _ => none

/-- How many bytes a character has that starts with a byte. -/
def byteCount? (byte : UInt8) : Option Nat :=
  if byte < 0x80 then some 1
  else if byte &&& 0xe0 = 0xc0 then some 2
  else if byte &&& 0xf0 = 0xe0 then some 3
  else if byte &&& 0xf8 = 0xf0 then some 4
  else none

/-- Scans so many bytes. -/
def scanBytes : Nat → List Cell → Option (List UInt8 × List Cell)
  | 0, cells => some ([], cells)
  | count + 1, cells => do
      let (byte, rest) ← scanByte cells
      let (bytes, rest) ← scanBytes count rest
      return (byte :: bytes, rest)

/-- Whether a byte can follow the first one of a character. -/
def continuesCharacter (byte : UInt8) : Bool :=
  byte &&& 0xc0 = 0x80

/-- Scans a character that is written by its bytes.  Bytes that have the form of a character without
being one stand for a replacement. -/
def scanByteCharacter (cells : List Cell) : Option (List Char × List Cell) := do
  let (first, _) ← scanByte cells
  let (bytes, rest) ← scanBytes (← byteCount? first) cells
  if !bytes.tail.all continuesCharacter then none
  match String.fromUTF8? ⟨bytes.toArray⟩ with
  | some text => return (text.toList, rest)
  | none => return (['\ufffd'], rest)

/-- Scans the characters of a tag as far as they go.  Every step takes at least one of the `fuel`
cells. -/
def scanTagText (angled : Bool) : Nat → List Cell → Option (List Char × List Cell)
  | 0, _ => none
  | _ + 1, [] => some ([], [])
  | fuel + 1, cell :: rest =>
      if cell.character = '%' then do
        let (meant, rest) ← scanByteCharacter (cell :: rest)
        let (text, rest) ← scanTagText angled fuel rest
        return (meant ++ text, rest)
      else if isNameCharacter cell.character || isTagSign angled cell.character then do
        let (text, rest) ← scanTagText angled fuel rest
        return (cell.character :: text, rest)
      else some ([], cell :: rest)

/-- The text of the characters of a tag.  One that means the end of the text ends it. -/
def tagText (characters : List Char) : String :=
  String.ofList (characters.takeWhile (· ≠ endMark))

/-- Scans the handle of a tag: an exclamation mark, and perhaps a name with another one. -/
def scanHandle (cells : List Cell) : Option (List Char × List Cell) :=
  if next cells ≠ '!' then none
  else
    let (name, rest) := spanOf isNameCharacter (cells.drop 1)
    if next rest = '!' then some ('!' :: characters name ++ ['!'], rest.drop 1)
    else some ('!' :: characters name, rest)

/-- Whether a handle has a name or is the double one. -/
def isFullHandle (handle : List Char) : Bool :=
  1 < handle.length && handle.getLast? = some '!'

/-- Scans a tag.  It ends with its word, or `inside` brackets with a comma. -/
def scanTag (inside : Bool) (cells : List Cell) : Option (Token × List Cell) := do
  let fuel := cells.length + 1
  let (token, rest) ←
    if next (cells.drop 1) = '<' then do
      let (text, rest) ← scanTagText true fuel (cells.drop 2)
      if text = [] || next rest ≠ '>' then none
      else some (Token.tag "" (tagText text), rest.drop 1)
    else do
      let (handle, afterHandle) ← scanHandle cells
      let (text, rest) ← scanTagText false fuel afterHandle
      if isFullHandle handle then
        if text = [] then none
        else some (Token.tag (String.ofList handle) (tagText text), rest)
      else
        let text := tagText (handle.tail ++ text)
        if text = "" then some (Token.tag "" "!", rest) else some (Token.tag "!" text, rest)
  if endsWord (next rest) || (inside && next rest = ',') then return (token, rest) else none

/-- Scans the number of a version; it has nine digits at most. -/
def scanVersionNumber (cells : List Cell) : Option (Nat × List Cell) :=
  let (digits, rest) := spanOf Char.isDigit cells
  if digits = [] || 9 < digits.length then none
  else
    some ((characters digits).foldl (fun value digit => value * 10 + (digit.toNat - '0'.toNat)) 0,
      rest)

def scanVersion (cells : List Cell) : Option (Directive × List Cell) := do
  let (major, rest) ← scanVersionNumber (skip isBlank cells)
  if next rest ≠ '.' then none
  let (minor, rest) ← scanVersionNumber (rest.drop 1)
  return (.version major minor, rest)

def scanTagDirective (cells : List Cell) : Option (Directive × List Cell) := do
  let (handle, rest) ← scanHandle (skip isBlank cells)
  if !(handle = ['!'] || isFullHandle handle) || !isBlank (next rest) then none
  let rest := skip isBlank rest
  let (meaning, rest) ← scanTagText true (rest.length + 1) rest
  if meaning = [] || !endsWord (next rest) then none
  return (.tag (String.ofList handle) (tagText meaning), rest)

/-- Scans the line of a directive after its percent sign. -/
def scanDirective (cells : List Cell) : Option (Directive × List Cell) := do
  let (name, rest) := spanOf isNameCharacter cells
  if !endsWord (next rest) then none
  let (directive, rest) ←
    match String.ofList (characters name) with
    | "YAML" => scanVersion rest
    | "TAG" => scanTagDirective rest
    | _ => none
  return (directive, ← scanLineEnd rest)

/-- Scans the name of an anchor or alias. -/
def scanName (cells : List Cell) : Option (String × List Cell) :=
  let (name, rest) := spanOf isNameCharacter cells
  if name = [] then none
  else if endsWord (next rest) || next rest ∈ ['?', ':', ',', ']', '\x7d', '%', '@', '\x60'] then
    some (String.ofList (characters name), rest)
  else none

/-! ## The tokenizer -/

/-- What may turn out to be a key. -/
structure Candidate where
  /-- How many tokens come before it. -/
  position : Nat
  /-- Where it starts. -/
  start : Cell
  /-- Whether it must be a key, because a key of its block stands at its column. -/
  required : Bool

/-- What has been scanned so far. -/
structure Tokenizer where
  cells : List Cell
  /-- The tokens, the latest one first. -/
  tokens : List Token := []
  /-- The column of the innermost block, and those of the blocks around it.  There is none at the
  outermost level. -/
  blocks : List Nat := []
  /-- The candidate of the innermost level, and those of the open brackets around it. -/
  candidate : Option Candidate := none
  around : List (Option Candidate) := []
  /-- Whether a key may start here. -/
  keyAllowed : Bool := true

namespace Tokenizer

/-- Whether brackets are open. -/
def isInside (state : Tokenizer) : Bool :=
  !state.around.isEmpty

/-- The column of the innermost block; below zero where there is none. -/
def indent (state : Tokenizer) : Int :=
  match state.blocks with
  | [] => -1
  | column :: _ => column

def push (token : Token) (state : Tokenizer) : Tokenizer :=
  { state with tokens := token :: state.tokens }

/-- Puts a token before the one at a position. -/
def insert (position : Nat) (token : Token) (state : Tokenizer) : Tokenizer :=
  { state with tokens := state.tokens.insertIdx (state.tokens.length - position) token }

/-- Takes so many cells. -/
def advance (count : Nat) (state : Tokenizer) : Tokenizer :=
  { state with cells := state.cells.drop count }

/-- Ends the blocks that are indented deeper than a column, if no brackets are open. -/
def closeBlocks (column : Int) (state : Tokenizer) : Tokenizer :=
  if state.isInside then state
  else
    let closed := state.blocks.takeWhile fun block : Nat => column < (block : Int)
    { state with
      blocks := state.blocks.drop closed.length
      tokens := List.replicate closed.length .blockEnd ++ state.tokens }

/-- Starts a block before the token at a position, if no brackets are open and the column is deeper
than the block around it. -/
def openBlock (column position : Nat) (token : Token) (state : Tokenizer) : Tokenizer :=
  if !state.isInside && state.indent < column then
    { state.insert position token with blocks := column :: state.blocks }
  else state

/-- Starts a block here. -/
def openBlockHere (token : Token) (state : Tokenizer) : Tokenizer :=
  state.openBlock (column state.cells) state.tokens.length token

/-- Gives the candidate up; it must not have had to be a key. -/
def dropCandidate (state : Tokenizer) : Option Tokenizer :=
  if state.candidate.any (·.required) then none else some { state with candidate := none }

/-- Makes what comes next a candidate, where a key may start. -/
def noteCandidate (state : Tokenizer) : Option Tokenizer := do
  match state.keyAllowed, state.cells with
  | true, cell :: _ =>
      let state ← state.dropCandidate
      return { state with
        candidate := some
          { position := state.tokens.length
            start := cell
            required := !state.isInside && state.indent = cell.column } }
  | _, _ => return state

/-- How many bytes there are at most from the start of a key to its colon. -/
def longestKey : Nat := 1024

/-- Whether a colon here makes a candidate a key. -/
def isKey (state : Tokenizer) (candidate : Candidate) : Bool :=
  match state.cells with
  | [] => false
  | cell :: _ =>
      candidate.start.line = cell.line && cell.offset ≤ candidate.start.offset + longestKey

/-- A sign that starts, parts or ends something. -/
def sign (token : Token) (keyAllowed : Bool) (state : Tokenizer) : Tokenizer :=
  (({ state with keyAllowed }).advance 1).push token

/-- Takes the end of the text or a mark between documents. -/
def endDocument (state : Tokenizer) : Option Tokenizer := do
  let state ← (state.closeBlocks (-1)).dropCandidate
  return { state with keyAllowed := false }

def takeDirective (state : Tokenizer) : Option Tokenizer := do
  let state ← state.endDocument
  let (directive, cells) ← scanDirective (state.cells.drop 1)
  return ({ state with cells }).push (.directive directive)

def takeMark (token : Token) (state : Tokenizer) : Option Tokenizer := do
  let state ← state.endDocument
  return (state.advance 3).push token

def takeOpening (token : Token) (state : Tokenizer) : Option Tokenizer := do
  let state ← state.noteCandidate
  return { state.sign token true with
    candidate := none
    around := state.candidate :: state.around }

def takeClosing (token : Token) (state : Tokenizer) : Option Tokenizer := do
  let state := (← state.dropCandidate).sign token false
  match state.around with
  | [] => return state
  | candidate :: around => return { state with candidate, around }

def takeComma (state : Tokenizer) : Option Tokenizer := do
  return (← state.dropCandidate).sign .comma true

/-- Takes the dash of an item.  Inside brackets it is left to the reader of the tokens. -/
def takeDash (state : Tokenizer) : Option Tokenizer := do
  if !state.isInside && !state.keyAllowed then none
  return (← (state.openBlockHere .sequenceStart).dropCandidate).sign .dash true

/-- Takes the sign that announces a key. -/
def takeKey (state : Tokenizer) : Option Tokenizer := do
  if !state.isInside && !state.keyAllowed then none
  let state ← (state.openBlockHere .mappingStart).dropCandidate
  return state.sign .key (!state.isInside)

/-- Takes the colon before a value. -/
def takeValue (state : Tokenizer) : Option Tokenizer := do
  let found := state.candidate.filter state.isKey
  match found with
  | some candidate =>
      let state := state.insert candidate.position .key
      let state := state.openBlock candidate.start.column candidate.position .mappingStart
      return ({ state with candidate := none }).sign .value false
  | none => do
      let state ← if state.candidate.any (·.required) then none else some state
      if !state.isInside && !state.keyAllowed then none
      let state := state.openBlockHere .mappingStart
      return state.sign .value (!state.isInside)

/-- Takes a name after its sign. -/
def takeName (token : String → Token) (state : Tokenizer) : Option Tokenizer := do
  let state ← state.noteCandidate
  let (name, cells) ← scanName (state.cells.drop 1)
  return ({ state with cells, keyAllowed := false }).push (token name)

def takeTag (state : Tokenizer) : Option Tokenizer := do
  let state ← state.noteCandidate
  let (token, cells) ← scanTag state.isInside state.cells
  return ({ state with cells, keyAllowed := false }).push token

def takeBlock (folded : Bool) (state : Tokenizer) : Option Tokenizer := do
  let state ← state.dropCandidate
  let (text, cells) ← scanBlock folded state.indent (state.cells.drop 1)
  let style := if folded then Style.folded else Style.literal
  return ({ state with cells, keyAllowed := true }).push (.scalar style (String.ofList text))

def takeQuoted (quote : Char) (state : Tokenizer) : Option Tokenizer := do
  let state ← state.noteCandidate
  let (text, cells) ← scanQuoted quote state.cells.length (state.cells.drop 1)
  return ({ state with cells, keyAllowed := false }).push (.scalar .quoted (String.ofList text))

def takePlain (state : Tokenizer) : Option Tokenizer := do
  let state ← state.noteCandidate
  let plain ← scanPlain state.isInside (state.indent + 1).toNat state.cells.length [] state.cells
  return ({ state with cells := plain.rest, keyAllowed := plain.endsLine }).push
    (.scalar .plain (String.ofList plain.text))

/-- Skips what stands between tokens.  Tabs count as blanks only where no key may start, since
indentation is made of spaces.  Every step takes at least one of the `fuel` cells. -/
def skipGap : Nat → Tokenizer → Tokenizer
  | 0, state => state
  | fuel + 1, state =>
      let cells := state.cells
      let cells := if column cells = 0 && next cells = byteOrderMark then cells.drop 1 else cells
      let isGap character :=
        character = ' ' || ((state.isInside || !state.keyAllowed) && character = '\t')
      let cells := skipComment (skip isGap cells)
      if isBreak (next cells) then
        skipGap fuel
          { state with
            cells := cells.drop 1
            keyAllowed := state.keyAllowed || !state.isInside }
      else { state with cells }

/-- Takes the token that comes next, which is not the end of the text. -/
def takeToken (state : Tokenizer) : Option Tokenizer :=
  let first := next state.cells
  let second := next (state.cells.drop 1)
  let announced := state.isInside || endsWord second
  if column state.cells = 0 && first = '%' then state.takeDirective
  else if atMark '-' state.cells then state.takeMark .documentStart
  else if atMark '.' state.cells then state.takeMark .documentEnd
  else if first = '[' then state.takeOpening .openBracket
  else if first = '\x7b' then state.takeOpening .openBrace
  else if first = ']' then state.takeClosing .closeBracket
  else if first = '\x7d' then state.takeClosing .closeBrace
  else if first = ',' then state.takeComma
  else if first = '-' && endsWord second then state.takeDash
  else if first = '?' && announced then state.takeKey
  else if first = ':' && announced then state.takeValue
  else if first = '*' then state.takeName .alias
  else if first = '&' then state.takeName .anchor
  else if first = '!' then state.takeTag
  else if first = '|' && !state.isInside then state.takeBlock false
  else if first = '>' && !state.isInside then state.takeBlock true
  else if first = '\'' || first = '"' then state.takeQuoted first
  else if startsPlain state.isInside state.cells then state.takePlain
  else none

/-- Takes all tokens.  Every step takes at least one of the `fuel` cells. -/
def takeAll : Nat → Tokenizer → Option Tokenizer
  | 0, _ => none
  | fuel + 1, state => do
      let state := state.skipGap (state.cells.length + 1)
      if next state.cells = endMark then state.endDocument
      else
        takeAll fuel (← (state.closeBlocks (column state.cells)).takeToken)

end Tokenizer

/-- The tokens of a text. -/
def tokens? (text : String) : Option (List Token) := do
  let cells ← cells? text
  let state ← Tokenizer.takeAll (cells.length + 1) { cells }
  return state.tokens.reverse

end BehaviorTree.Yaml
