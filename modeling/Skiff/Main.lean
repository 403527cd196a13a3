import Skiff.Command

/-!
# The program

Reads arguments, files and lines, and prints what the commands compute.
-/

namespace Skiff

/-- Programs may run for as long as they like. -/
def endless : Nat := 0x4000000000000000

/-- Prints notices to the error output. -/
def printNotices (notices : List Notice) : IO Unit := do
  let errors ← IO.getStderr
  for notice in notices do
    match notice with
    | .text text => errors.putStr text
    | .report title message place =>
      let where_ := place.render
      errors.putStrLn s!"Error: {title}\n  {where_}: {message}"

/-- Reads a file. -/
def readText (path : String) : IO (Except ReadError String) := do
  try
    return .ok (← IO.FS.readFile path)
  catch e =>
    match e with
    | .noFileOrDirectory .. => return .error .notFound
    | .inappropriateType _ code _ =>
      return .error (if code = 20 then .notDirectory else .isDirectory)
    | e => return .error (.other (toString e))

/-- Files that have been read. Others count as missing until they are read. -/
abbrev KnownFiles := List (String × Except ReadError String)

/-- Reads files until a program needs no other. -/
partial def readAll (current file : String) (importDir : Option String) (known : KnownFiles) :
    IO KnownFiles := do
  let files : Command.Files :=
    { current, read := fun path => (known.lookup path).getD (.error .unread) }
  let missing? := match Command.load files file importDir with
    | .error (.unreadable _ .unread) => some file
    | .error (.source (.compile ⟨.moduleFile path .unread, _⟩ _) _) => some path
    | _ => none
  match missing? with
  | none => return known
  | some path => readAll current file importDir ((path, ← readText path) :: known)

/-- Answers lines as they come. -/
partial def interact (input : IO.FS.Stream) (session : Session) : IO Unit := do
  let line ← input.getLine
  if line.isEmpty then return
  match session.input endless line with
  | none => return
  | some (session, shown) =>
    (← IO.getStdout).putStr shown.output
    (← IO.getStdout).flush
    (← IO.getStderr).putStr shown.errors
    interact input session

/-- Executes a command that works on a file. -/
def executeFile (command : Command) (file : String) (importDir : Option String) : IO UInt32 := do
  let current := (← IO.currentDir).toString
  let known ← readAll current file importDir []
  let files : Command.Files :=
    { current, read := fun path => (known.lookup path).getD (.error .unread) }
  let result := command.execute files "" endless
  (← IO.getStdout).putStr result.output
  printNotices result.notices
  return UInt32.ofNat result.exit

end Skiff

open Skiff in
def main (args : List String) : IO UInt32 := do
  match Command.ofArgs? args with
  | none =>
    (← IO.getStderr).putStrLn "error: invalid arguments"
    return 2
  | some .interact =>
    (← IO.getStdout).putStr Session.greeting
    interact (← IO.getStdin) Session.start
    return 0
  | some (.run file maxAllocs importDir) =>
    executeFile (.run file maxAllocs importDir) file importDir
  | some (.list file importDir) => executeFile (.list file importDir) file importDir
