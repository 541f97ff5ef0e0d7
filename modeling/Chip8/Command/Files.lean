import Chip8.Command.Path

/-!
# Files

A store of files that behaves as a file system seen from its working directory: every operation of
the assembler on files has its result in the store, with the faults that a file system reports.
-/

namespace Chip8.Command

/-- Why a file cannot be read or written. -/
inductive FileFault where
  | notFound
  | notDirectory
  | isDirectory
  | nameTooLong
  | notText
  | other (message : String)
deriving DecidableEq

def FileFault.message : FileFault → String
  | .notFound => "No such file or directory (os error 2)"
  | .notDirectory => "Not a directory (os error 20)"
  | .isDirectory => "Is a directory (os error 21)"
  | .nameTooLong => "File name too long (os error 36)"
  | .notText => "stream did not contain valid UTF-8"
  | .other message => message

/-- Files by their places. A directory exists if it is an origin or there is a file below it. -/
structure FileStore where
  files : List (Place × List UInt8) := []

namespace FileStore

def content? (store : FileStore) (place : Place) : Option (List UInt8) :=
  (store.files.find? (·.1 == place)).map (·.2)

def isDirectory (store : FileStore) (place : Place) : Bool :=
  place.names.isEmpty || store.files.any (·.1.isBelow place)

/-- Replaces or adds a file. -/
def put (store : FileStore) (place : Place) (bytes : List UInt8) : FileStore where
  files := (place, bytes) :: store.files.filter (·.1 != place)

/-- Passes if there is a directory at a place. -/
def requireDirectory (store : FileStore) (place : Place) : Except FileFault Unit :=
  if (store.content? place).isSome then .error .notDirectory
  else if store.isDirectory place then .ok ()
  else .error .notFound

/-- The greatest length of a file name in bytes. -/
def maxName : Nat := 255

/-- Below this length in bytes a path is accepted. -/
def maxPath : Nat := 4096

/-- The parts of a path of acceptable length. -/
def acceptedParts (path : String) : Except FileFault (List String) :=
  if maxPath ≤ path.utf8ByteSize then .error .nameTooLong else .ok (partsOf path)

/-- The place that the parts of a path lead to from another place. -/
def walk (store : FileStore) (place : Place) : List String → Except FileFault Place
  | [] => .ok place
  | part :: parts => do
    store.requireDirectory place
    if part = "" ∨ part = "." then store.walk place parts
    else if part = ".." then store.walk place.parent parts
    else if maxName < part.utf8ByteSize then .error .nameTooLong
    else store.walk (place.child part) parts

/-- The bytes of the file at a path. -/
def read (store : FileStore) (path : String) : Except FileFault (List UInt8) := do
  let place ← store.walk (.start path) (← acceptedParts path)
  match store.content? place with
  | some bytes => pure bytes
  | none => if store.isDirectory place then throw .isDirectory else throw .notFound

/-- Where a file at a path is to be written. A name with a slash behind it is a directory. -/
def placeToWrite (store : FileStore) (path : String) : Except FileFault Place := do
  let parts ← acceptedParts path
  let named := (parts.reverse.dropWhile (· == "")).reverse
  let folder ← store.walk (.start path) named.dropLast
  store.requireDirectory folder
  match named.getLast? with
  | none => throw .isDirectory
  | some name =>
    if named.length < parts.length ∨ name = "." ∨ name = ".." then throw .isDirectory
    else if maxName < name.utf8ByteSize then throw .nameTooLong
    else if store.isDirectory (folder.child name) then throw .isDirectory
    else pure (folder.child name)

/-- The store with a file written. -/
def write (store : FileStore) (path : String) (bytes : List UInt8) :
    Except FileFault FileStore := do
  pure (store.put (← store.placeToWrite path) bytes)

end FileStore

end Chip8.Command
