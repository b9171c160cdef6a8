import BehaviorTree.Files.Place

/-!
# Files

Documents live in files.  Paths are followed through the directories from the outermost one or from
the working directory.  Operations fail in the ways in which a file system fails; what they did
before they failed stays done.
-/

namespace BehaviorTree

/-- Files and directories, and the directory in which paths start that are not absolute. -/
structure Files where
  root : Files.Directory := []
  /-- The names on the way to the working directory, from the outermost one. -/
  workingDirectory : List String := []

namespace Files

/-- How many bytes a path may have. -/
def longestPath : Nat := 4095

/-- Refuses the paths that lead nowhere, whatever there is. -/
def checkPath (path : String) : Except FileError Unit :=
  if path.contains '\x00' then .error .malformedPath
  else if path = "" then .error .notFound
  else if longestPath < path.utf8ByteSize then .error .nameTooLong
  else .ok ()

/-- Where the parts of a path start. -/
def origin (files : Files) (path : String) : List String :=
  if Path.isAbsolute path then [] else files.workingDirectory

/-- Follows parts from where a path starts. -/
def follow (files : Files) (path : String) (parts : List String) : Except FileError Target := do
  checkPath path
  Place.follow ⟨files.root, []⟩ (files.origin path ++ parts)

/-! ## Reading -/

/-- What stands at a path. -/
def content (files : Files) (path : String) : Except FileError Content := do
  match ← files.follow path (Path.parts path) with
  | .directory place => return .directory place.inside
  | .file _ _ content => return content
  | .vacant _ _ => throw .notFound

def contains (files : Files) (path : String) : Bool :=
  match files.content path with
  | .ok _ => true
  | .error _ => false

def isDirectory (files : Files) (path : String) : Bool :=
  match files.content path with
  | .ok (.directory _) => true
  | _ => false

def isFile (files : Files) (path : String) : Bool :=
  match files.content path with
  | .ok (.directory _) => false
  | .ok _ => true
  | .error _ => false

/-- The text of a file. -/
def read (files : Files) (path : String) : Except FileError String := do
  match ← files.content path with
  | .text text => return text
  | .directory _ => throw .isADirectory
  | .binary => throw .notText

/-- The names in a directory, in their order. -/
def list (files : Files) (path : String) : Except FileError (List String) := do
  match ← files.content path with
  | .directory inside => return Directory.names inside
  | _ => throw .notADirectory

end Files

/-! ## Writing -/

/-- A step on files that answers or fails. -/
abbrev Filing (α : Type) := ExceptT FileError (StateM Files) α

namespace Filing

open BehaviorTree.Files

/-- Puts content under a name at a place. -/
def put (place : Place) (name : String) (content : Content) : Filing Unit :=
  modify fun files => { files with root := (place.put name content).root }

/-- Makes a directory where nothing stands yet. -/
def makeDirectory (path : String) : Filing Unit := do
  match ← ((← get).follow path (Path.trimmedParts path) : Except FileError Target) with
  | .vacant place name => put place name (.directory [])
  | _ => throw .alreadyExists

/-- Makes the first of some directories, each of which is in the next one, unless it exists.  Where
something is missing on the way to it, the others are made before. -/
def ensureDirectory : List String → Filing Unit
  | [] => return
  | path :: outer => do
      let accept (failure : FileError) : Filing Unit := do
        if !(← get).isDirectory path then throw failure
      tryCatch (makeDirectory path) fun failure => do
        if failure = .notFound then
          ensureDirectory outer
          tryCatch (makeDirectory path) accept
        else
          accept failure

/-- Makes the directory at a path and those on the way to it. -/
def ensurePath (path : String) : Filing Unit :=
  ensureDirectory (Path.ancestors path)

/-- Writes a file, in a directory that exists. -/
def writeFile (path text : String) : Filing Unit := do
  match ← ((← get).follow path (Path.writtenParts path) : Except FileError Target) with
  | .directory _ => throw .isADirectory
  | .file place name _ => put place name (.text text)
  | .vacant place name => put place name (.text text)

/-- Writes a file and makes the directories on the way to it. -/
def write (path text : String) : Filing Unit := do
  ensureDirectory (Path.ancestors path).tail
  writeFile path text

end Filing

end BehaviorTree
