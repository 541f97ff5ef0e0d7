/-!
# Paths

A path starts from the root if it begins with a slash, and from the working directory otherwise.
Its parts lead down by their names, stay for an empty part or `.`, and lead up for `..`. Nothing is
known of the directories above the working directory but that they exist.
-/

namespace Chip8.Command

/-- A directory that is there without any file: the one the command runs in, one above it, or the
root. -/
inductive Origin where
  | working | above | root
deriving DecidableEq

/-- A place for a file or a directory, by the names that lead down to it. -/
structure Place where
  origin : Origin := .working
  names : List String := []
deriving DecidableEq

namespace Place

def child (place : Place) (name : String) : Place :=
  { place with names := place.names ++ [name] }

/-- Where `..` leads from a directory; the root is its own parent. -/
def parent (place : Place) : Place :=
  match place.names, place.origin with
  | [], .working => { origin := .above }
  | names, origin => { origin, names := names.dropLast }

/-- Whether a place lies below a directory. -/
def isBelow (place directory : Place) : Bool :=
  place.origin == directory.origin && directory.names.isPrefixOf place.names &&
    decide (directory.names.length < place.names.length)

/-- Where a path starts from. -/
def start (path : String) : Place :=
  { origin := if path.toList.head? = some '/' then .root else .working }

end Place

/-- The parts of a path between its slashes. -/
def partsOf (path : String) : List String :=
  (path.toList.splitOn '/').map String.ofList

/-- A file name with another extension. The extension of a name is what follows its last dot,
unless that dot comes first. A name that is `..` up to that dot names the directory above and takes
no extension. -/
def nameWithExtension (extension name : List Char) : List Char :=
  let stem := (name.reverse.dropWhile (· != '.')).drop 1 |>.reverse
  if stem = ['.'] then ['.', '.']
  else (if stem.isEmpty then name else stem) ++ '.' :: extension

/-- A path with another extension on the file name behind its last slash. -/
def withExtension (extension path : String) : String :=
  let name := (path.toList.reverse.takeWhile (· != '/')).reverse
  let folder := path.toList.take (path.toList.length - name.length)
  String.ofList (folder ++ nameWithExtension extension.toList name)

end Chip8.Command
