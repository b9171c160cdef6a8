import BehaviorTree.Yaml.Token

/-!
# YAML documents

A text holds one document at most: a node, whose parts may be anchored and then stand in other
places under the name of their anchor.  A node that is left out is a plain scalar without text.
-/

namespace BehaviorTree.Yaml

inductive Node where
  | scalar (style : Style) (tag : Option String) (text : String)
  | sequence (items : List Node)
  | mapping (members : List (Node × Node))
  /-- Another place of the anchored node that has a number. -/
  | alias (number : Nat)

namespace Node

def missing : Node :=
  scalar .plain none ""

end Node

/-- A node with the anchored nodes that it refers to, by their numbers. -/
structure Document where
  root : Node
  anchored : List (Nat × Node) := []

namespace Document

/-- A node itself, in place of an alias of it. -/
def resolve (document : Document) : Node → Option Node
  | .alias number => document.anchored.lookup number
  | node => some node

end Document

/-! ## Directives -/

/-- The handles of tags that need no directive, with what they stand for. -/
def standardHandles : List (String × String) :=
  [("!", "!"), ("!!", "tag:yaml.org,2002:")]

/-- Whether a version of the format can be read. -/
def isSupported (major minor : Nat) : Bool :=
  major = 1 && (minor = 1 || minor = 2)

/-- The handles that the directives before a document declare, each at most once.  The version may
be given once too. -/
def declaredHandles (directives : List Directive) : Option (List (String × String)) := do
  let versions := directives.filterMap fun
    | .version major minor => some (major, minor)
    | .tag _ _ => none
  let handles := directives.filterMap fun
    | .version _ _ => none
    | .tag handle meaning => some (handle, meaning)
  if 1 < versions.length || !versions.all fun (major, minor) => isSupported major minor then none
  else if (handles.map Prod.fst).Nodup then some handles
  else none

/-! ## Reading nodes -/

/-- What is being read. -/
structure Reading where
  tokens : List Token
  handles : List (String × String) := standardHandles
  /-- The anchors so far, each with the number of the last node that it was given to. -/
  names : List (String × Nat) := []
  anchored : List (Nat × Node) := []

abbrev Reader (α : Type) := StateT Reading Option α

namespace Reader

def peek : Reader (Option Token) :=
  return (← get).tokens.head?

def skip : Reader Unit :=
  modify fun reading => { reading with tokens := reading.tokens.tail }

/-- Whether one of some tokens comes next. -/
def nextIn (tokens : List Token) : Reader Bool :=
  return (← peek).any (· ∈ tokens)

/-- Takes a token if it comes next. -/
def accept (token : Token) : Reader Bool := do
  if ← nextIn [token] then
    skip
    return true
  else return false

/-- Takes the token that has to come next. -/
def expect (token : Token) : Reader Unit := do
  if !(← accept token) then failure

/-- Takes an anchor if one comes next. -/
def anchor? : Reader (Option String) := do
  match ← peek with
  | some (.anchor name) =>
      skip
      return some name
  | _ => return none

/-- The meaning of a tag, whose handle has to be known. -/
def meaningOf (handle rest : String) : Reader String := do
  if handle = "" then return rest
  match (← get).handles.lookup handle with
  | some meaning => return meaning ++ rest
  | none => failure

/-- Takes a tag if one comes next. -/
def tag? : Reader (Option String) := do
  match ← peek with
  | some (.tag handle rest) =>
      skip
      return some (← meaningOf handle rest)
  | _ => return none

/-- Takes an anchor and a tag, in any order, as far as they are there. -/
def properties : Reader (Option String × Option String) := do
  match ← anchor? with
  | some name => return (some name, ← tag?)
  | none => do
      let tag ← tag?
      if tag.isSome then return (← anchor?, tag) else return (none, none)

/-- Gives a number to the node of an anchor: how many anchors are known so far.  One that is known
already adds none, so the number may be given twice, and then is that of the later node. -/
def enroll (name : String) : Reader Nat := do
  let number := (← get).names.length
  modify fun reading =>
    { reading with
      names := (name, number) :: reading.names.filter (·.1 ≠ name)
      anchored := reading.anchored.filter (·.1 ≠ number) }
  return number

def numberOf (name : String) : Reader Nat := do
  match (← get).names.lookup name with
  | some number => return number
  | none => failure

/-- Keeps the node of a number, unless the number has been given to a part of it. -/
def keep (number : Nat) (node : Node) : Reader Unit :=
  modify fun reading =>
    if (reading.anchored.lookup number).isSome then reading
    else { reading with anchored := (number, node) :: reading.anchored }

mutual

/-- Reads a node.  Where `block` is set it may be a block, and where `flush` is set, the items of a
list that starts without a token. -/
def node : Nat → Bool → Bool → Reader Node
  | 0, _, _ => failure
  | fuel + 1, block, flush => do
      match ← peek with
      | some (.alias name) =>
          skip
          return .alias (← numberOf name)
      | _ =>
          let (anchor, tag) ← properties
          match anchor with
          | none => content fuel block flush tag tag.isSome
          | some name =>
              let number ← enroll name
              let node ← content fuel block flush tag true
              keep number node
              return node

/-- Reads a node after its anchor and tag.  One that has some may be missing. -/
def content : Nat → Bool → Bool → Option String → Bool → Reader Node
  | 0, _, _, _, _ => failure
  | fuel + 1, block, flush, tag, mayMiss => do
      match ← peek with
      | some (.scalar style text) =>
          skip
          return .scalar style tag text
      | some .openBracket =>
          skip
          return .sequence (← bracketItems fuel true)
      | some .openBrace =>
          skip
          return .mapping (← braceMembers fuel true)
      | following =>
          if flush && following = some .dash then return .sequence (← flushItems fuel)
          else if block && following = some .sequenceStart then
            skip
            return .sequence (← blockItems fuel)
          else if block && following = some .mappingStart then
            skip
            return .mapping (← blockMembers fuel)
          else if mayMiss then return .scalar .plain tag ""
          else failure

/-- Reads a node unless one of some tokens comes next. -/
def nodeUnless : Nat → Bool → Bool → List Token → Reader Node
  | 0, _, _, _ => failure
  | fuel + 1, block, flush, tokens => do
      if ← nextIn tokens then return .missing else node fuel block flush

/-- Reads the items of a block up to its end. -/
def blockItems : Nat → Reader (List Node)
  | 0 => failure
  | fuel + 1 => do
      if ← accept .blockEnd then return []
      expect .dash
      let item ← nodeUnless fuel true false [.dash, .blockEnd]
      return item :: (← blockItems fuel)

/-- Reads items as far as they go. -/
def flushItems : Nat → Reader (List Node)
  | 0 => failure
  | fuel + 1 => do
      if ← accept .dash then
        let item ← nodeUnless fuel true false [.dash, .key, .value, .blockEnd]
        return item :: (← flushItems fuel)
      else return []

/-- Reads the members of a block up to its end. -/
def blockMembers : Nat → Reader (List (Node × Node))
  | 0 => failure
  | fuel + 1 => do
      if ← accept .blockEnd then return []
      expect .key
      let key ← nodeUnless fuel true true [.key, .value, .blockEnd]
      let value ←
        if ← accept .value then nodeUnless fuel true true [.key, .value, .blockEnd]
        else pure .missing
      return (key, value) :: (← blockMembers fuel)

/-- Reads a value inside brackets, if there is one, up to a comma or an end. -/
def bracketValue : Nat → Token → Reader Node
  | 0, _ => failure
  | fuel + 1, ending => do
      if ← accept .value then nodeUnless fuel false false [.comma, ending] else return .missing

/-- Reads an item between brackets.  An announced key makes it a mapping of one member. -/
def bracketItem : Nat → Reader Node
  | 0 => failure
  | fuel + 1 => do
      if ← accept .key then
        if ← nextIn [.value, .comma, .closeBracket] then
          skip
          return .mapping [(.missing, ← bracketValue fuel .closeBracket)]
        else
          let key ← node fuel false false
          return .mapping [(key, ← bracketValue fuel .closeBracket)]
      else node fuel false false

/-- Reads the items of a list between brackets.  Commas stand between them, and there may be one
after the last. -/
def bracketItems : Nat → Bool → Reader (List Node)
  | 0, _ => failure
  | fuel + 1, first => do
      if ← accept .closeBracket then return []
      if !first then expect .comma
      if !first && (← accept .closeBracket) then return []
      let item ← bracketItem fuel
      return item :: (← bracketItems fuel false)

/-- Reads a member between braces.  Only an announced key has a value. -/
def braceMember : Nat → Reader (Node × Node)
  | 0 => failure
  | fuel + 1 => do
      if ← accept .key then
        let key ← nodeUnless fuel false false [.value, .comma, .closeBrace]
        return (key, ← bracketValue fuel .closeBrace)
      else return (← node fuel false false, .missing)

/-- Reads the members of a mapping between braces. -/
def braceMembers : Nat → Bool → Reader (List (Node × Node))
  | 0, _ => failure
  | fuel + 1, first => do
      if ← accept .closeBrace then return []
      if !first then expect .comma
      if !first && (← accept .closeBrace) then return []
      let member ← braceMember fuel
      return member :: (← braceMembers fuel false)

end

/-! ## Reading documents -/

/-- The directives at the front of tokens, and the tokens after them. -/
def leadingDirectives : List Token → List Directive × List Token
  | .directive directive :: rest =>
      let (directives, rest) := leadingDirectives rest
      (directive :: directives, rest)
  | tokens => ([], tokens)

/-- Takes the directives that come next. -/
def directives : Reader (List Directive) := do
  let (directives, rest) := leadingDirectives (← get).tokens
  modify fun reading => { reading with tokens := rest }
  return directives

/-- Whether the content of a document that a mark has started is missing. -/
def isBare : Reader Bool := do
  match ← peek with
  | none => return true
  | some (.directive _) => return true
  | some token => return token = .documentStart || token = .documentEnd

/-- Reads the root of a document.  Directives come before a mark; without either, the content is the
document. -/
def root (fuel : Nat) : Reader Node := do
  let directives ← directives
  let declared ← declaredHandles directives
  if !directives.isEmpty || (← nextIn [.documentStart]) then
    expect .documentStart
    modify fun reading => { reading with handles := declared ++ standardHandles }
    if ← isBare then return .missing else node fuel true false
  else if (← peek).isNone then return .missing
  else node fuel true false

/-- Reads the only document of a text. -/
def document : Reader Document := do
  let tokens := (← get).tokens
  let root ← root (4 * tokens.length + 4)
  modify fun reading =>
    { reading with tokens := reading.tokens.dropWhile (· = .documentEnd) }
  if (← peek).isSome then failure
  return { root, anchored := (← get).anchored }

end Reader

/-- The document of a text.  A text without any content has a missing root. -/
def Document.read? (text : String) : Option Document := do
  let tokens ← tokens? text
  let (document, _) ← Reader.document.run { tokens }
  return document

end BehaviorTree.Yaml
