/-!
# Paths of files

Paths are texts whose parts are divided by slashes. Making a path absolute drops empty parts and
`.`, and keeps `..`.
-/

namespace Skiff

namespace Path

def isAbsolute (path : String) : Bool := path.startsWith '/'

/-- What stands before, between and behind the slashes of a path. -/
def pieces (path : String) : List String := (path.toList.splitOn '/').map String.ofList

/-- The parts of a path other than empty ones and `.`. -/
def parts (path : String) : List String :=
  (pieces path).filter fun part => part ≠ "" ∧ part ≠ "."

/-- The steps that lead to where a path ends. A slash at the end is a step that stays, as `.` is. -/
def steps (path : String) : List String :=
  let named := (pieces path).filter (· ≠ "")
  if path.endsWith '/' then named ++ ["."] else named

/-- The path that `path` names inside a directory. -/
def join (directory path : String) : String :=
  if isAbsolute path || directory.isEmpty then path
  else if directory.endsWith '/' then directory ++ path
  else directory ++ "/" ++ path

/-- The path from the root, if `current` is the directory that relative paths start from. Two
slashes at the start, but not three, and one at the end are kept. -/
def absolute (current path : String) : String :=
  if path.isEmpty then path
  else
    let names := String.intercalate "/" (parts path)
    let whole :=
      if !isAbsolute path then if names.isEmpty then current else join current names
      else if path.startsWith "//" && !path.startsWith "///" then "//" ++ names
      else "/" ++ names
    if path.endsWith '/' && !whole.endsWith '/' then whole ++ "/" else whole

/-- The directory that an absolute path lies in. -/
def parent (path : String) : String :=
  let trimmed := String.ofList (path.toList.reverse.dropWhile (· = '/')).reverse
  let shorter := String.ofList
    ((trimmed.toList.reverse.dropWhile (· ≠ '/')).dropWhile (· = '/')).reverse
  if shorter.isEmpty && isAbsolute path then "/" else shorter

end Path

end Skiff
