import BehaviorTree.Yaml.Cell

/-!
# Scalars of YAML

A scalar is plain, stands between quotes, or is a block of lines below an indicator.  Plain and
quoted scalars may go on over several lines; a line break in them stands for a blank, and further
breaks after it for themselves.
-/

namespace BehaviorTree.Yaml

/-- How a scalar is written. -/
inductive Style where
  | plain
  | quoted
  | literal
  | folded
deriving DecidableEq, Repr

/-- What the blanks and line breaks between two words stand for. -/
def foldedGap (gap : List Char) : List Char :=
  match gap.filter isBreak with
  | [] => gap
  | ['\n'] => [' ']
  | '\n' :: breaks => breaks
  | breaks => breaks

/-! ## Quoted scalars -/

/-- What a backslash and a character stand for. -/
def shortEscape? : Char → Option Char
  | '0' => some '\x00'
  | 'a' => some '\x07'
  | 'b' => some '\x08'
  | 't' => some '\t'
  | '\t' => some '\t'
  | 'n' => some '\n'
  | 'v' => some '\x0b'
  | 'f' => some '\x0c'
  | 'r' => some '\r'
  | 'e' => some '\x1b'
  | ' ' => some ' '
  | '"' => some '"'
  | '/' => some '/'
  | '\\' => some '\\'
  | 'N' => some '\u0085'
  | '_' => some '\u00a0'
  | 'L' => some '\u2028'
  | 'P' => some '\u2029'
  | _ => none

/-- How many hexadecimal digits follow a backslash and a character. -/
def escapeWidth? : Char → Option Nat
  | 'x' => some 2
  | 'u' => some 4
  | 'U' => some 8
  | _ => none

def hexDigit? (character : Char) : Option Nat :=
  if '0' ≤ character ∧ character ≤ '9' then some (character.toNat - '0'.toNat)
  else if 'a' ≤ character ∧ character ≤ 'f' then some (character.toNat - 'a'.toNat + 10)
  else if 'A' ≤ character ∧ character ≤ 'F' then some (character.toNat - 'A'.toNat + 10)
  else none

/-- The number of hexadecimal digits. -/
def hexNumber? (digits : List Char) : Option Nat :=
  digits.foldlM (fun value digit => (hexDigit? digit).map (value * 16 + ·)) 0

/-- Scans what stands after a backslash, if it is not a line break. -/
def scanEscape : List Cell → Option (Char × List Cell)
  | [] => none
  | cell :: rest =>
      match shortEscape? cell.character, escapeWidth? cell.character with
      | some meant, _ => some (meant, rest)
      | none, some width => do
          let value ← hexNumber? (characters (rest.take width))
          if value.isValidChar then return (Char.ofNat value, rest.drop width) else none
      | none, none => none

/-- Scans a quoted scalar after its first quote.  A quote of the single kind is written twice in it;
a backslash in one of the double kind starts an escape, or takes a line break away.  Every step
takes at least one of the `fuel` cells. -/
def scanQuoted (quote : Char) : Nat → List Cell → Option (List Char × List Cell)
  | 0, _ => none
  | _ + 1, [] => none
  | fuel + 1, cell :: rest =>
      if atDocumentMark (cell :: rest) || cell.character = endMark then none
      else if isSpace cell.character then do
        let (gap, rest) := spanOf isSpace (cell :: rest)
        let (content, rest) ← scanQuoted quote fuel rest
        return (foldedGap (characters gap) ++ content, rest)
      else if cell.character = quote then
        if quote = '\'' && next rest = quote then do
          let (content, rest) ← scanQuoted quote fuel (rest.drop 1)
          return (quote :: content, rest)
        else some ([], rest)
      else if quote = '"' && cell.character = '\\' then
        if isBreak (next rest) then do
          let (gap, rest) := spanOf isSpace (rest.drop 1)
          let (content, rest) ← scanQuoted quote fuel rest
          return ((characters gap).filter isBreak ++ content, rest)
        else do
          let (meant, rest) ← scanEscape rest
          let (content, rest) ← scanQuoted quote fuel rest
          return (meant :: content, rest)
      else do
        let (content, rest) ← scanQuoted quote fuel rest
        return (cell.character :: content, rest)

/-! ## Plain scalars -/

/-- The signs between and around the items of collections in brackets. -/
def isBracketSign (character : Char) : Bool :=
  character ∈ [',', '[', ']', '\x7b', '\x7d']

/-- Characters that cannot start a plain scalar. -/
def isIndicator (character : Char) : Bool :=
  isBracketSign character ||
    character ∈ ['-', '?', ':', '#', '&', '*', '!', '|', '>', '\'', '"', '%', '@', '\x60']

/-- Whether a plain scalar starts here, `inside` brackets or not. -/
def startsPlain (inside : Bool) (cells : List Cell) : Bool :=
  let first := next cells
  let second := next (cells.drop 1)
  !(endsWord first || isIndicator first) || (first = '-' && !isBlank second) ||
    (!inside && (first = '?' || first = ':') && !endsWord second)

/-- Scans a word of a plain scalar.  Inside brackets a colon must not stand directly before one of
their signs. -/
def scanWord (inside : Bool) : List Cell → Option (List Char × List Cell)
  | [] => some ([], [])
  | cell :: rest =>
      let character := cell.character
      if endsWord character then some ([], cell :: rest)
      else if inside && character = ':' && (isBracketSign (next rest) || next rest = '?') then none
      else if (character = ':' && endsWord (next rest)) || (inside && isBracketSign character) then
        some ([], cell :: rest)
      else do
        let (word, rest) ← scanWord inside rest
        return (character :: word, rest)

/-- Whether a tab indents a line less than a scalar is indented. -/
def indentsByTab (indent : Nat) (gap : List Cell) : Bool :=
  (gap.dropWhile fun cell => !isBreak cell.character).any fun cell =>
    cell.character = '\t' && cell.column < indent

/-- A plain scalar that has been scanned.  What follows it is on a line of its own if it ended with
a line break. -/
structure Plain where
  text : List Char
  endsLine : Bool
  rest : List Cell

/-- Scans a plain scalar from a word on; `gap` is what stands before the word.  Outside of brackets
its lines are indented by `indent` at least.  Every step takes at least one of the `fuel` cells. -/
def scanPlain (inside : Bool) (indent : Nat) : Nat → List Char → List Cell → Option Plain
  | 0, _, _ => none
  | fuel + 1, gap, cells =>
      if atDocumentMark cells || next cells = '#' then some ⟨[], gap.any isBreak, cells⟩
      else do
        let (word, rest) ← scanWord inside cells
        if word = [] then return ⟨[], gap.any isBreak, rest⟩
        let (following, rest) := spanOf isSpace rest
        if indentsByTab indent following then none
        let content := foldedGap gap ++ word
        let following := characters following
        if following = [] || (!inside && column rest < indent) then
          return ⟨content, following.any isBreak, rest⟩
        let plain ← scanPlain inside indent fuel following rest
        return { plain with text := content ++ plain.text }

/-! ## Blocks of lines -/

/-- Which of the line breaks at the end of a block belong to it. -/
inductive Chomping where
  | strip
  | clip
  | keep
deriving DecidableEq

/-- Scans the sign of a chomping, if there is one. -/
def scanChomping (cells : List Cell) : Option Chomping × List Cell :=
  match next cells with
  | '+' => (some .keep, cells.drop 1)
  | '-' => (some .strip, cells.drop 1)
  | _ => (none, cells)

/-- Scans the digit of an indentation, if there is one; it must not be zero. -/
def scanIncrement (cells : List Cell) : Option (Option Nat × List Cell) :=
  let digit := next cells
  if digit = '0' then none
  else if digit.isDigit then some (some (digit.toNat - '0'.toNat), cells.drop 1)
  else some (none, cells)

/-- Scans the signs behind the indicator of a block, which come in any order. -/
def scanHeader (cells : List Cell) : Option ((Chomping × Option Nat) × List Cell) := do
  match scanChomping cells with
  | (some chomping, rest) => do
      let (increment, rest) ← scanIncrement rest
      return ((chomping, increment), rest)
  | (none, rest) => do
      let (increment, rest) ← scanIncrement rest
      match increment with
      | none => return ((.clip, none), rest)
      | some increment =>
          let (chomping, rest) := scanChomping rest
          return ((chomping.getD .clip, some increment), rest)

/-- What is left of a line once blanks and a comment are taken away, which must be its end. -/
def scanLineEnd (cells : List Cell) : Option (List Cell) :=
  let rest := skipComment (skip isBlank cells)
  if isBreak (next rest) then some (rest.drop 1)
  else if next rest = endMark then some rest
  else none

/-- Scans the breaks of empty lines and the indentation of the line after them.  An unknown
indentation takes in all blanks; `deepest` is the deepest one so far. -/
def scanBreaks (indent : Option Nat) (deepest : Nat) :
    List Cell → Option ((List Char × Nat) × List Cell)
  | [] => some (([], deepest), [])
  | cell :: rest =>
      let indenting := indent.all (cell.column < ·)
      if indenting && cell.character = ' ' then scanBreaks indent deepest rest
      else if indenting && cell.character = '\t' then none
      else
        let deepest := max deepest cell.column
        if isBreak cell.character then do
          let ((breaks, deepest), rest) ← scanBreaks indent deepest rest
          return ((cell.character :: breaks, deepest), rest)
        else some (([], deepest), cell :: rest)

/-- The lines of a block that have been scanned. -/
structure Lines where
  text : List Char := []
  /-- The break of the last line. -/
  lastBreak : List Char := []
  /-- The breaks of the empty lines after it. -/
  breaks : List Char := []
  /-- Whether the last line starts with a blank. -/
  startsBlank : Bool := false
  rest : List Cell

/-- What the breaks before a line stand for.  In a folded block, a break between two lines that do
not start with a blank stands for a blank. -/
def breaksBefore (folded blank : Bool) (lines : Lines) : List Char :=
  if folded && lines.lastBreak = ['\n'] && !lines.startsBlank && !blank then
    if lines.breaks = [] then [' '] else lines.breaks
  else lines.lastBreak ++ lines.breaks

/-- Scans the lines of a block at an indentation. -/
def scanLines (folded : Bool) (indent : Nat) : Nat → Lines → Option Lines
  | 0, _ => none
  | fuel + 1, lines =>
      if column lines.rest = indent && next lines.rest ≠ endMark then do
        let blank := isBlank (next lines.rest)
        let (line, rest) :=
          spanOf (fun character => !isBreak character && character ≠ endMark) lines.rest
        let (lastBreak, rest) :=
          if isBreak (next rest) then ([next rest], rest.drop 1) else ([], rest)
        let ((breaks, _), rest) ← scanBreaks (some indent) 0 rest
        scanLines folded indent fuel
          { text := lines.text ++ breaksBefore folded blank lines ++ characters line
            lastBreak
            breaks
            startsBlank := blank
            rest }
      else some lines

/-- Scans a block after its indicator.  `around` is the indentation around it, below zero at the
outermost level. -/
def scanBlock (folded : Bool) (around : Int) (cells : List Cell) :
    Option (List Char × List Cell) := do
  let ((chomping, increment), rest) ← scanHeader cells
  let rest ← scanLineEnd rest
  let given := increment.map fun increment => around.toNat + increment
  let ((breaks, deepest), rest) ← scanBreaks given 0 rest
  let indent := given.getD (max deepest (max (around + 1).toNat 1))
  let lines ← scanLines folded indent (rest.length + 1) { breaks, rest }
  let ending :=
    match chomping with
    | .strip => []
    | .clip => lines.lastBreak
    | .keep => lines.lastBreak ++ lines.breaks
  return (lines.text ++ ending, lines.rest)

end BehaviorTree.Yaml
