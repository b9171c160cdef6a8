/-!
# Directories

A directory holds files and directories under names.
-/

namespace BehaviorTree.Files

/-- What stands under a name. -/
inductive Content where
  | directory (inside : List (String × Content))
  | text (text : String)
  /-- A file that does not hold text. -/
  | binary

/-- What is in a directory: names, each of them once, with what stands under them. -/
abbrev Directory := List (String × Content)

namespace Directory

/-- The directory with other content under a name. -/
def put : Directory → String → Content → Directory
  | [], name, content => [(name, content)]
  | (other, kept) :: rest, name, content =>
      if other = name then (name, content) :: rest else (other, kept) :: put rest name content

/-- The directory with content at the end of a way of names, unless something stands there already.
Directories are made on the way. -/
def supply : Directory → List String → Content → Directory
  | directory, [], _ => directory
  | directory, name :: rest, content =>
      match directory.lookup name with
      | some (.directory inside) => put directory name (.directory (supply inside rest content))
      | some _ => directory
      | none =>
          put directory name (if rest = [] then content else .directory (supply [] rest content))

/-- The names in a directory, in their order. -/
def names (directory : Directory) : List String :=
  (directory.map Prod.fst).mergeSort fun left right => left ≤ right

end Directory

end BehaviorTree.Files
