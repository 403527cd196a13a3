import Skiff.Source.Path

/-!
# Trees of files

The files that programs can be read from: texts under the parts of their paths below one
directory. A directory is there if some file lies in it. The directories around the tree are
there too, but hold nothing else.
-/

namespace Skiff

/-- Why a file cannot be read. -/
inductive ReadError where
  | notFound
  | notDirectory
  | isDirectory
  | nameTooLong
  | zeroByte
  /-- What the operating system reports. -/
  | other (message : String)
  /-- Nobody has tried to read the file yet. -/
  | unread
  deriving DecidableEq, Repr

def ReadError.message : ReadError → String
  | notFound => "No such file or directory (os error 2)"
  | notDirectory => "Not a directory (os error 20)"
  | isDirectory => "Is a directory (os error 21)"
  | nameTooLong => "File name too long (os error 36)"
  | zeroByte => "file name contained an unexpected NUL byte"
  | other message => message
  | unread => "not read"

/-- Files below a directory that is written `root`. -/
structure FileTree where
  root : String
  files : List (List String × String) := []

namespace FileTree

/-- What stands at a place of the tree. -/
inductive Node where
  | directory
  | file (text : String)

/-- What stands at the end of a list of parts. -/
def node? (tree : FileTree) (place : List String) : Option Node :=
  match tree.files.find? fun file => file.1 == place with
  | some (_, text) => some (.file text)
  | none =>
    if place.isEmpty || tree.files.any fun file => place.isPrefixOf file.1 then some .directory
    else none

/-- Follows the steps of a path. The walk stands at a place of the tree or, if there is none,
above its root. Every step starts from a directory, and from above only `..` leads anywhere. -/
def walk (tree : FileTree) : (steps : List String) → (place? : Option (List String)) →
    Except ReadError (Option (List String))
  | [], place? => .ok place?
  | step :: rest, none =>
    if step = "." ∨ step = ".." then walk tree rest none
    else if 255 < step.utf8ByteSize then .error .nameTooLong
    else .error .notFound
  | step :: rest, some place =>
    match tree.node? place with
    | some .directory =>
      if step = "." then walk tree rest (some place)
      else if step = ".." then
        walk tree rest (if place.isEmpty then none else some place.dropLast)
      else if 255 < step.utf8ByteSize then .error .nameTooLong
      else walk tree rest (some (place ++ [step]))
    | some (.file _) => .error .notDirectory
    | none => .error .notFound

/-- The place that a path leads to, if it is not above the root. A relative path starts from the
root. -/
def place? (tree : FileTree) (path : String) : Except ReadError (Option (List String)) :=
  if path.toList.contains '\x00' then .error .zeroByte
  else if 4096 ≤ path.utf8ByteSize then .error .nameTooLong
  else if path.startsWith tree.root then
    tree.walk (Path.steps (String.ofList (path.toList.drop tree.root.length))) (some [])
  else tree.walk (Path.steps path) (if Path.isAbsolute path then none else some [])

/-- The text of the file that a path names. -/
def read (tree : FileTree) (path : String) : Except ReadError String :=
  match tree.place? path with
  | .error e => .error e
  | .ok none => .error .isDirectory
  | .ok (some place) =>
    match tree.node? place with
    | some (.file text) => .ok text
    | some .directory => .error .isDirectory
    | none => .error .notFound

end FileTree

end Skiff
