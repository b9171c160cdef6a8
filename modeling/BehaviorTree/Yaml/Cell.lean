/-!
# The characters of a YAML text

What a character of a YAML text means depends on where it stands.  A text is therefore taken as
cells, each a character with its place.  A last cell behind the text marks its end, so that there is
always a next cell.

The place on a line is counted twice: in characters, since what is written below each other lines up
by them, and in bytes, since they limit how long a key may be.

There are several ways to break a line.  All but the separators of lines and paragraphs mean the
same, and are one character here.
-/

namespace BehaviorTree.Yaml

/-- A character in its place. -/
structure Cell where
  character : Char
  line : Nat
  /-- How many characters of its line come before it. -/
  column : Nat
  /-- How many bytes of its line come before it. -/
  offset : Nat

/-- The character of the cell behind a text.  No text holds it. -/
def endMark : Char := '\x00'

/-! ## Classes of characters -/

/-- Whether a text may hold a character as it is. -/
def isAllowed (character : Char) : Bool :=
  let code := character.toNat
  character ∈ ['\t', '\n', '\r', '\u0085'] ||
    (0x20 ≤ code && code ≤ 0x7e) || (0xa0 ≤ code && code ≤ 0xfffd) || 0x10000 ≤ code

def isBlank (character : Char) : Bool :=
  character = ' ' || character = '\t'

def isBreak (character : Char) : Bool :=
  character = '\n' || character = '\u2028' || character = '\u2029'

/-- Whether a character separates the words of a scalar. -/
def isSpace (character : Char) : Bool :=
  isBlank character || isBreak character

/-- Whether a word ends before a character. -/
def endsWord (character : Char) : Bool :=
  isSpace character || character = endMark

/-- Whether a character is a letter, a digit or one of the signs that stand in names. -/
def isNameCharacter (character : Char) : Bool :=
  character.isAlphanum || character = '_' || character = '-'

/-! ## Texts as cells -/

/-- The mark by which a text may say that it is one.  It takes a column of its line. -/
def byteOrderMark : Char := '\ufeff'

/-- A text in which the line breaks that mean the same are the same. -/
def unifyBreaks : List Char → List Char
  | [] => []
  | '\r' :: '\n' :: rest => '\n' :: unifyBreaks rest
  | '\r' :: rest => '\n' :: unifyBreaks rest
  | '\u0085' :: rest => '\n' :: unifyBreaks rest
  | character :: rest => character :: unifyBreaks rest

/-- The cells of characters from a place on. -/
def cellsFrom (line column offset : Nat) : List Char → List Cell
  | [] => [⟨endMark, line, column, offset⟩]
  | character :: rest =>
      ⟨character, line, column, offset⟩ ::
        if isBreak character then cellsFrom (line + 1) 0 0 rest
        else cellsFrom line (column + 1) (offset + character.utf8Size) rest

/-- The cells of a text, if it holds allowed characters only. -/
def cells? (text : String) : Option (List Cell) :=
  let characters := text.toList
  if characters.all isAllowed then some (cellsFrom 0 0 0 (unifyBreaks characters)) else none

/-! ## Looking ahead -/

/-- The character that comes next. -/
def next : List Cell → Char
  | [] => endMark
  | cell :: _ => cell.character

/-- The column of the next character. -/
def column : List Cell → Nat
  | [] => 0
  | cell :: _ => cell.column

/-- The cells up to the first one that is not of a class, and the cells from there on. -/
def spanOf (ofClass : Char → Bool) (cells : List Cell) : List Cell × List Cell :=
  cells.span fun cell => ofClass cell.character

/-- The cells from the first one that is not of a class. -/
def skip (ofClass : Char → Bool) (cells : List Cell) : List Cell :=
  cells.dropWhile fun cell => ofClass cell.character

def characters (cells : List Cell) : List Char :=
  cells.map Cell.character

/-- Whether a line starts with three times the same sign and nothing that belongs to it. -/
def atMark (sign : Char) : List Cell → Bool
  | first :: second :: third :: rest =>
      first.column = 0 && first.character = sign && second.character = sign &&
        third.character = sign && endsWord (next rest)
  | _ => false

/-- Whether a mark between documents comes next. -/
def atDocumentMark (cells : List Cell) : Bool :=
  atMark '-' cells || atMark '.' cells

/-- The cells after the comment that may come next. -/
def skipComment (cells : List Cell) : List Cell :=
  if next cells = '#' then skip (fun character => !isBreak character && character ≠ endMark) cells
  else cells

end BehaviorTree.Yaml
