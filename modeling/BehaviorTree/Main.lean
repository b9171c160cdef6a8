import BehaviorTree.Project.Run

/-!
# The command line

A run takes from the disk what it may come to look at, works on that, and writes back what it has
changed.
-/

namespace BehaviorTree.Project

/-! ## Reading the disk -/

/-- What stands at a path of the disk; of a directory, only that it is one. -/
def contentAt (path : String) : IO (Option Files.Content) := do
  try
    match (← (System.mkFilePath [path]).metadata).type with
    | .dir => return some (.directory [])
    | .file =>
        match String.fromUTF8? (← IO.FS.readBinFile path) with
        | some text => return some (.text text)
        | none => return some .binary
    | _ => return none
  catch _ => return none

/-- Where names lead from a directory. -/
def lead (origin : List String) (names : List String) : List String :=
  names.foldl (fun location name =>
    if name = ".." then location.dropLast else location ++ [name]) origin

/-- The path of a way from the outermost directory. -/
def pathOf (location : List String) : String :=
  "/" ++ "/".intercalate location

/-- Takes what stands at a location from the disk. -/
def take (files : Files) (location : List String) : IO Files := do
  match ← contentAt (pathOf location) with
  | some content => return { files with root := Files.Directory.supply files.root location content }
  | none => return files

/-- Takes what stands at a path and on the way to it, and what is directly inside it. -/
def survey (files : Files) (path : String) : IO Files := do
  if path.contains '\x00' then return files
  let names := Path.names path
  let origin := files.origin path
  let mut files := files
  for count in List.range (names.length + 1) do
    files ← take files (lead origin (names.take count))
  let location := lead origin names
  if files.isDirectory (pathOf location) then
    for entry in ← (System.mkFilePath [pathOf location]).readDir do
      files ← take files (location ++ [entry.fileName])
  return files

/-- The paths that a command names. -/
def Command.paths (config : Config) : Command → List String
  | .compile trees => trees
  | .checkKeys files => files
  | .inspect tree => [tree]
  | .migrate tree out => tree :: out.toList
  | .new name => [Path.join config.treesDirectory (name ++ ".json")]
  | .init => []

/-- Takes what an invocation may come to look at. -/
def gather (invocation : Invocation) (workingDirectory : List String) : IO Files := do
  let files ← take { workingDirectory } workingDirectory
  let root := invocation.project.getD (workingPath files)
  let files ← survey files (Path.join root Config.path)
  let config :=
    match files.read (Path.join root Config.path) with
    | .ok text => ((Config.read? text).getD {}).below root
    | .error _ => Config.below root {}
  let paths := (invocation.command.map (Command.paths config)).getD []
  (config.treesDirectory :: config.keysDirectory :: paths).foldlM survey files

/-! ## Writing -/

/-- Writes back what a run has changed in the directory at a location. -/
partial def writeBack (location : List String) (before after : Files.Directory) : IO Unit := do
  for (name, content) in after do
    let inner := location ++ [name]
    match content, before.lookup name with
    | .directory inside, some (.directory earlier) => writeBack inner earlier inside
    | .directory inside, _ =>
        IO.FS.createDir (pathOf inner)
        writeBack inner [] inside
    | .text text, some (.text earlier) =>
        if text ≠ earlier then IO.FS.writeFile (pathOf inner) text
    | .text text, _ => IO.FS.writeFile (pathOf inner) text
    | .binary, _ => pure ()

/-- Prints what a run has put out.  Details of the journal are for those who ask for them. -/
def print (verbose : Bool) (output : List Output) : IO Unit := do
  for item in output do
    match item with
    | .line text => IO.println text
    | .entry entry =>
        if verbose || Level.info.rank ≤ entry.level.rank then IO.println entry.line

/-- Runs an invocation in the working directory. -/
def Invocation.perform (invocation : Invocation) : IO UInt32 := do
  let workingDirectory := Path.names (← IO.currentDir).toString
  let files ← gather invocation workingDirectory
  let outcome := invocation.run files
  writeBack [] files.root outcome.desk.files.root
  print invocation.verbose outcome.desk.output
  match outcome.failure with
  | none => return 0
  | some failure =>
      IO.eprintln s!"Error: {failure.message}"
      return 1

end BehaviorTree.Project

open BehaviorTree.Project in
def main (arguments : List String) : IO UInt32 := do
  match Request.ofArguments? arguments with
  | some (.run invocation) => invocation.perform
  | some .version =>
      IO.println versionLine
      return 0
  | some .help =>
      for line in usageLines do
        IO.println line
      return 0
  | none =>
      IO.eprintln "error: unexpected arguments"
      for line in usageLines do
        IO.eprintln line
      return 2
