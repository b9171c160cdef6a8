/-!
# Paths

A path is the text by which files and directories are asked for; messages show it as it was given.
Its parts stand between slashes.  An empty part or a single dot stays where it is, so a path also
has names, which are what remains without those.
-/

namespace BehaviorTree.Path

/-- What stands between the slashes of a path. -/
def parts (path : String) : List String :=
  (path.toList.splitOn '/').map String.ofList

def isAbsolute (path : String) : Bool :=
  path.startsWith "/"

/-- Whether a part does not lead anywhere. -/
def staysPut (part : String) : Bool :=
  part = "" || part = "."

/-- The parts of a path without the empty ones at its end. -/
def trimmedParts (path : String) : List String :=
  ((parts path).reverse.dropWhile (· = "")).reverse

/-- The parts that writing a file follows.  A path that ends in a slash asks for a directory, and
none can be written, so its last name stands for the directory around it. -/
def writtenParts (path : String) : List String :=
  let trimmed := trimmedParts path
  if path.endsWith "/" && trimmed.getLast? ≠ some ".." then trimmed.dropLast ++ ["."] else trimmed

/-- The parts of a path that lead somewhere. -/
def names (path : String) : List String :=
  (parts path).filter fun part => !staysPut part

/-- The paths that end in a name.  The parts are given from the innermost one, and so are the paths
found. -/
def namedPaths : List String → List String
  | [] => []
  | part :: outer =>
      if staysPut part then namedPaths outer
      else "/".intercalate (part :: outer).reverse :: namedPaths outer

/-- A path, the path of the directory around it, and so on outwards. -/
def ancestors (path : String) : List String :=
  if path = "" then [] else path :: (namedPaths (parts path).reverse).tail

/-- A path below a directory; an absolute path stays as it is. -/
def join (directory path : String) : String :=
  if isAbsolute path then path
  else if directory = "" || directory.endsWith "/" then directory ++ path
  else directory ++ "/" ++ path

/-- The last name of a path, unless it leads upwards. -/
def fileName? (path : String) : Option String :=
  match (names path).getLast? with
  | some name => if name = ".." then none else some name
  | none => none

/-- The characters of a name before its last dot, and those after it, if there is a dot that is not
the first character. -/
def cutAtDot (name : List Char) : Option (List Char × List Char) :=
  let extension := (name.reverse.takeWhile (· ≠ '.')).reverse
  let stem := name.take (name.length - extension.length - 1)
  if stem = [] then none else some (stem, extension)

/-- The extension of a file name. -/
def extension? (name : String) : Option String :=
  (cutAtDot name.toList).map fun (_, extension) => String.ofList extension

/-- A file name without its extension. -/
def stem (name : String) : String :=
  match cutAtDot name.toList with
  | some (stem, _) => String.ofList stem
  | none => name

end BehaviorTree.Path
