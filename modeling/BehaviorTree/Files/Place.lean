import BehaviorTree.Files.Directory
import BehaviorTree.Files.FileError
import BehaviorTree.Files.Path

/-!
# Places

Whoever follows a path stands in a directory and knows the way back out.  So a change is made where
it happens, and the directories around it take it in on the way out.
-/

namespace BehaviorTree.Files

/-- A directory with its surroundings: the name under which it stands, and the directory in which
it stands there, and so on outwards. -/
structure Place where
  inside : Directory
  around : List (String × Directory) := []

/-- Where a path leads: to a directory, to a file in one, or to a name that is free in one. -/
inductive Target where
  | directory (place : Place)
  | file (place : Place) (name : String) (content : Content)
  | vacant (place : Place) (name : String)

namespace Place

/-- Steps into a directory that stands under a name. -/
def enter (place : Place) (name : String) (inside : Directory) : Place :=
  ⟨inside, (name, place.inside) :: place.around⟩

/-- Steps out into the directory around.  There is nothing around the outermost one. -/
def leave (place : Place) : Place :=
  match place.around with
  | [] => place
  | (name, outside) :: rest => ⟨Directory.put outside name (.directory place.inside), rest⟩

/-- The outermost directory, with what is now at the place in it. -/
def root (place : Place) : Directory :=
  place.around.foldl
    (fun inside (name, outside) => Directory.put outside name (.directory inside)) place.inside

/-- The place with other content under a name. -/
def put (place : Place) (name : String) (content : Content) : Place :=
  { place with inside := Directory.put place.inside name content }

/-- How many bytes a name may have. -/
def longestName : Nat := 255

/-- Follows parts from a place.  Whatever is left behind on the way has to be a directory; only at
the end of the way may stand a file, or nothing. -/
def follow (place : Place) : List String → Except FileError Target
  | [] => .ok (.directory place)
  | part :: rest =>
      if Path.staysPut part then place.follow rest
      else if part = ".." then place.leave.follow rest
      else if longestName < part.utf8ByteSize then .error .nameTooLong
      else
        match place.inside.lookup part with
        | some (.directory inside) => (place.enter part inside).follow rest
        | some content =>
            if rest = [] then .ok (.file place part content) else .error .notADirectory
        | none => if rest = [] then .ok (.vacant place part) else .error .notFound

end Place

end BehaviorTree.Files
