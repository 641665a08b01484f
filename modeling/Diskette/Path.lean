/-!
# File names and extensions

A path is a list of parts between slashes. Empty parts and parts `.` say nothing; the last of the
others is the file name, unless it is `..`. The extension is what follows the last dot of the file
name, unless that dot is its first character.
-/

namespace Diskette.Path

/-- The parts of a path that say where to go. -/
def parts (path : List Char) : List (List Char) :=
  (path.splitOn '/').filter fun part => part ≠ [] ∧ part ≠ ['.']

/-- The name of the file that a path leads to. -/
def fileName? (path : List Char) : Option (List Char) :=
  match (parts path).getLast? with
  | some ['.', '.'] => none
  | name? => name?

/-- What follows the last dot of a file name, if that dot is not its first character. -/
def extensionOfName? (name : List Char) : Option (List Char) :=
  match (name.splitOn '.').reverse with
  | last :: before :: earlier => if before = [] ∧ earlier = [] then none else some last
  | _ => none

/-- The extension of the file that a path leads to. -/
def extension? (path : List Char) : Option (List Char) :=
  (fileName? path).bind extensionOfName?

end Diskette.Path
