/-!
# Invocations

The command line of a project: a command with its operands, and the options that stand before or
after it.  An option that takes a value has it in the same word or in the next one.
-/

namespace BehaviorTree.Project

/-- What is to be done. -/
inductive Command where
  /-- Compiles trees; all trees of the project where none are given. -/
  | compile (trees : List String)
  /-- Compiles sets of access keys; all sets of the project where none are given. -/
  | checkKeys (files : List String)
  /-- Shows a tree. -/
  | inspect (tree : String)
  /-- Loads a tree and saves it, where it was or elsewhere. -/
  | migrate (tree : String) (out : Option String)
  /-- Adds a fresh tree to the project. -/
  | new (name : String)
  /-- Sets up a project. -/
  | init
deriving DecidableEq

structure Invocation where
  /-- The root of the project; without one it is the working directory. -/
  project : Option String := none
  verbose : Bool := false
  command : Option Command := none
deriving DecidableEq

/-- What a command line asks for. -/
inductive Request where
  | run (invocation : Invocation)
  | help
  | version
deriving DecidableEq

inductive CommandName where
  | compile
  | checkKeys
  | inspect
  | migrate
  | new
  | init
deriving DecidableEq

namespace CommandName

def ofWord? : String → Option CommandName
  | "compile" => some compile
  | "check-keys" => some checkKeys
  | "inspect" => some inspect
  | "migrate" => some migrate
  | "new" => some new
  | "init" => some init
  | _ => none

/-- How many operands a command has at most. -/
def capacity? : CommandName → Option Nat
  | compile => none
  | checkKeys => none
  | init => some 0
  | _ => some 1

/-- Whether an operand may be empty: a path may not. -/
def allowsEmpty : CommandName → Bool
  | new => true
  | _ => false

end CommandName

/-- What has been given before the command, or after it. -/
structure Given where
  project : Option String := none
  verbose : Bool := false
  out : Option String := none
  operands : List String := []

namespace Given

def setProject (given : Given) (value : String) : Option Given :=
  if given.project.isSome || value = "" then none else some { given with project := some value }

def setOut (given : Given) (value : String) : Option Given :=
  if given.out.isSome || value = "" then none else some { given with out := some value }

def setVerbose (given : Given) : Option Given :=
  if given.verbose then none else some { given with verbose := true }

def addOperand (command : CommandName) (given : Given) (operand : String) : Option Given :=
  if operand = "" && !command.allowsEmpty then none
  else if command.capacity?.any (· ≤ given.operands.length) then none
  else some { given with operands := given.operands ++ [operand] }

/-- The command with what has been given for it. -/
def command? (given : Given) : CommandName → Option Command
  | .compile => some (.compile given.operands)
  | .checkKeys => some (.checkKeys given.operands)
  | .inspect => given.operands.head?.map .inspect
  | .migrate => given.operands.head?.map (.migrate · given.out)
  | .new => given.operands.head?.map .new
  | .init => some .init

end Given

/-! ## Options -/

/-- What an option says. -/
inductive Setting where
  | verbose
  | project (value : String)
  | out (value : String)
  /-- The value is in the next word. -/
  | projectNext
  | outNext
  | help
  | version

/-- The option of a word with two dashes.  Only some stand before, and some after, a command. -/
def longSetting? (command : Option CommandName) (content : String) : Option Setting :=
  let characters := content.toList
  let name := String.ofList (characters.takeWhile (· ≠ '='))
  let value := (characters.dropWhile (· ≠ '=')).tail?.map String.ofList
  match name, value with
  | "verbose", none => some .verbose
  | "project", none => some .projectNext
  | "project", some value => some (.project value)
  | "out", none => if command = some .migrate then some .outNext else none
  | "out", some value => if command = some .migrate then some (.out value) else none
  | "help", none => some .help
  | "version", none => if command.isNone then some .version else none
  | _, _ => none

/-- The options of a word with one dash, up to the first one that takes a value or ends the reading.
-/
def shortSettings? (command : Option CommandName) : List Char → Option (List Setting)
  | [] => some []
  | 'v' :: rest => (shortSettings? command rest).map (.verbose :: ·)
  | ['p'] => some [.projectNext]
  | 'p' :: '=' :: value => some [.project (String.ofList value)]
  | 'p' :: value => some [.project (String.ofList value)]
  | 'h' :: _ => some [.help]
  | 'V' :: _ => if command.isNone then some [.version] else none
  | _ => none

/-- The options of a word, if it is made of options. -/
def settings? (command : Option CommandName) (argument : String) : Option (Option (List Setting)) :=
  match argument.toList with
  | '-' :: '-' :: content =>
      some ((longSetting? command (String.ofList content)).map fun setting => [setting])
  | '-' :: first :: rest => some (shortSettings? command (first :: rest))
  | _ => none

/-- Whether a word can be the value of the option before it. -/
def isValue (argument : String) : Bool :=
  argument = "-" || !argument.startsWith "-"

/-- What the reading of settings comes to: more of the command line, or an answer at once. -/
inductive Progress where
  | given (given : Given) (rest : List String)
  | answer (request : Request)

/-- Applies the options of a word.  `rest` are the words after it. -/
def applySettings (rest : List String) : List Setting → Given → Option Progress
  | [], given => some (.given given rest)
  | .verbose :: settings, given => do applySettings rest settings (← given.setVerbose)
  | .project value :: settings, given => do applySettings rest settings (← given.setProject value)
  | .out value :: settings, given => do applySettings rest settings (← given.setOut value)
  | .projectNext :: _, given =>
      match rest with
      | value :: rest =>
          if isValue value then (given.setProject value).map (.given · rest) else none
      | [] => none
  | .outNext :: _, given =>
      match rest with
      | value :: rest => if isValue value then (given.setOut value).map (.given · rest) else none
      | [] => none
  | .help :: _, _ => some (.answer .help)
  | .version :: _, _ => some (.answer .version)

/-! ## Reading -/

/-- Reads what stands after a command.  Every step takes at least one of the `fuel` words. -/
def readOperands (command : CommandName) :
    Nat → Given → List String → Option (Given ⊕ Request)
  | 0, given, _ => some (.inl given)
  | _ + 1, given, [] => some (.inl given)
  | fuel + 1, given, argument :: rest =>
      if argument = "--" then
        (rest.foldlM (Given.addOperand command) given).map .inl
      else
        match settings? (some command) argument with
        | none => do readOperands command fuel (← given.addOperand command argument) rest
        | some none => none
        | some (some settings) => do
            match ← applySettings rest settings given with
            | .given given rest => readOperands command fuel given rest
            | .answer request => return .inr request

/-- The request of a command and what stands around it. -/
def commandRequest? (before : Given) (command : CommandName) (arguments : List String) :
    Option Request := do
  match ← readOperands command arguments.length {} arguments with
  | .inr request => return request
  | .inl after =>
      return .run
        { project := after.project.or before.project
          verbose := before.verbose || after.verbose
          command := some (← after.command? command) }

/-- The request of a word that asks for help, and the words after it. -/
def helpRequest? : List String → Option Request
  | [] => some .help
  | [name] => if name = "help" || (CommandName.ofWord? name).isSome then some .help else none
  | _ => none

/-- Reads a command line from its start. -/
def readArguments : Nat → Given → List String → Option Request
  | _, given, [] => some (.run { project := given.project, verbose := given.verbose })
  | 0, _, _ => none
  | fuel + 1, given, argument :: rest =>
      if argument = "--" then
        if rest.isEmpty then some (.run { project := given.project, verbose := given.verbose })
        else none
      else
        match settings? none argument with
        | none =>
            if argument = "help" then helpRequest? rest
            else
              match CommandName.ofWord? argument with
              | some command => commandRequest? given command rest
              | none => none
        | some none => none
        | some (some settings) => do
            match ← applySettings rest settings given with
            | .given given rest => readArguments fuel given rest
            | .answer request => return request

/-- What a command line asks for; nothing where it is misused. -/
def Request.ofArguments? (arguments : List String) : Option Request :=
  readArguments arguments.length {} arguments

end BehaviorTree.Project
