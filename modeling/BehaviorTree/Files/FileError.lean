/-!
# Errors of files

What goes wrong with a file is told apart by its cause.
-/

namespace BehaviorTree

/-- Why an operation on files fails. -/
inductive FileError where
  | notFound
  | notADirectory
  | isADirectory
  | alreadyExists
  /-- A name, or a path as a whole, is longer than a file system takes. -/
  | nameTooLong
  /-- A path holds the character that ends every path. -/
  | malformedPath
  | notText
deriving DecidableEq, Repr

/-- The message shown to authors. -/
def FileError.message : FileError → String
  | notFound => "No such file or directory (os error 2)"
  | notADirectory => "Not a directory (os error 20)"
  | isADirectory => "Is a directory (os error 21)"
  | alreadyExists => "File exists (os error 17)"
  | nameTooLong => "File name too long (os error 36)"
  | malformedPath => "file name contained an unexpected NUL byte"
  | notText => "stream did not contain valid UTF-8"

end BehaviorTree
