import Skiff.Session

/-!
# The command line

Three commands: running a file, listing the code of a file, and interactive sessions. What they
print and how they end is computed from the files that can be read and the text of the input.
-/

namespace Skiff

inductive Command where
  | run (file : String) (maxAllocs : Int64) (importDir : Option String)
  | list (file : String) (importDir : Option String)
  | interact
  deriving DecidableEq, Repr

/-- Something to print as an error: plain text, or a report about a place in a source text. -/
inductive Notice where
  | text (text : String)
  | report (title message : String) (place : Position)
  deriving DecidableEq, Repr

/-- How a command ends. -/
structure CommandResult where
  exit : Nat
  output : String := ""
  notices : List Notice := []
  deriving DecidableEq, Repr

/-- What options say. -/
structure CommandOptions where
  name : Option String := none
  files : List String := []
  maxAllocs : Option Int64 := none
  importDir : Option String := none
  /-- Whether a log level was given. It may be given before the name of the command and again
  behind it. -/
  levelGiven : Bool := false
  deriving Inhabited

namespace CommandOptions

/-- Sets an option that has not been set before. -/
def set (options : CommandOptions) (option value : String) : Option CommandOptions :=
  match option, options.name with
  | "--log-level", _ =>
    if options.levelGiven then none else some { options with levelGiven := true }
  | "--max-allocs", some "run" =>
    match options.maxAllocs, Numeral.readSigned 10 value.toList with
    | none, .ok n => some { options with maxAllocs := some n }
    | _, _ => none
  | "--import-dir", some name =>
    if options.importDir.isNone && name ≠ "repl" && value ≠ "" then
      some { options with importDir := some value }
    else none
  | _, _ => none

/-- A word that is no option: the name of the command, and then its file. -/
def word (options : CommandOptions) (text : String) : CommandOptions :=
  match options.name with
  | none => { options with name := some text, levelGiven := false }
  | some _ => { options with files := options.files ++ [text] }

/-- Reads the arguments; nothing if they make no sense. Behind `--` stand no options, and no
command is named there. -/
def read : List String → CommandOptions → Option CommandOptions
  | [], options => some options
  | "--" :: rest, options =>
    if options.name.isNone && !rest.isEmpty then none else some (rest.foldl word options)
  | arg :: rest, options =>
    if arg.startsWith "--" then
      match (arg.splitOn "=") with
      | name :: first :: more => (options.set name (String.intercalate "=" (first :: more))).bind
          (read rest)
      | _ =>
        match rest with
        | [] => none
        | value :: rest =>
          if value.startsWith "-" && value ≠ "-" && arg ≠ "--max-allocs" then none
          else (options.set arg value).bind (read rest)
    else if arg.startsWith "-" && arg ≠ "-" then none
    else read rest (options.word arg)

end CommandOptions

namespace Command

/-- The command that arguments stand for. The name of a file is never empty. -/
def ofArgs? (args : List String) : Option Command := do
  let options ← CommandOptions.read args {}
  guard ("" ∉ options.files)
  match options.name, options.files with
  | none, [] | some "repl", [] => return interact
  | some "run", [file] => return run file (options.maxAllocs.getD (-1)) options.importDir
  | some "disasm", [file] => return list file options.importDir
  | _, _ => none

/-- The files that can be read, and the directory that relative paths start from. -/
structure Files where
  current : String
  read : String → Except ReadError String

/-- Why a file has no program. -/
inductive LoadError where
  | unreadable (file : String) (error : ReadError)
  | source (error : SourceError) (files : FileSet)

/-- Compiles a file. Modules are looked for beside it unless another directory is given. -/
def load (files : Files) (file : String) (importDir : Option String) :
    Except LoadError (Program × Heap) :=
  match files.read file with
  | .error e => .error (.unreadable file e)
  | .ok text =>
    let beside := Path.parent file
    let directory := importDir.getD (if beside.isEmpty then "." else beside)
    let imports : Imports :=
      { files := some { current := files.current, directory, read := files.read } }
    match Program.ofText imports file text { table := SymbolTable.withBuiltins } with
    | .error e => .error (.source e (FileSet.add {} file text).1)
    | .ok (program, state) => .ok (program.merge state.heap)

/-- A report about a span; plain text if its file is unknown. -/
def report (files : FileSet) (span : Span) (title message : String) : Notice :=
  match files.file? span.file with
  | some _ => .report title message (files.position span)
  | none => .text (title ++ ": " ++ message ++ "\n")

/-- What is printed about a file that has no program. -/
def LoadError.notices : LoadError → List Notice
  | unreadable file error =>
    [.text ("Error reading file '" ++ file ++ "': " ++ error.message ++ "\n")]
  | source (.parse errors) files =>
    errors.map fun e => report files e.span "Parse error" e.message
  | source (.compile error files) _ =>
    [report files error.span "Compile error" error.fault.message]

/-- Errors at run time are printed in bold red. -/
def runNotice (e : RunError) : Notice := .text ("\x1b[1;31m" ++ e.message ++ "\x1b[0m\n")

/-- The lines of a text; the last may lack its line feed. -/
def lines (text : String) : List String :=
  let parts := text.splitOn "\n"
  if parts.getLast? = some "" then parts.dropLast else parts

/-- Executes a command. A program may run for `fuel` rounds. -/
def execute (files : Files) (input : String) (fuel : Nat) : Command → CommandResult
  | run file maxAllocs importDir =>
    match load files file importDir with
    | .error e => { exit := 1, notices := e.notices }
    | .ok (program, heap) =>
      match (Machine.load program { maxAllocs } #[] heap {}).run fuel with
      | (some (.error e), _) => { exit := 1, notices := [runNotice e] }
      | _ => { exit := 0 }
  | list file importDir =>
    match load files file importDir with
    | .error e => { exit := 1, notices := e.notices }
    | .ok (program, heap) => { exit := 0, output := program.listing heap }
  | interact =>
    let shown := Session.start.inputs fuel (lines input) { output := Session.greeting }
    { exit := 0, output := shown.output
      notices := if shown.errors.isEmpty then [] else [.text shown.errors] }

end Command

end Skiff
