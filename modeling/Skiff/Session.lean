import Skiff.Compile.Program
import Skiff.Machine.Run
import Skiff.Text.Backspace
import Skiff.Text.Blank

/-!
# Interactive sessions

A session evaluates lines one after the other. Later lines see the variables and functions of the
lines before them. A line that does not compile changes nothing, and expressions that stand on
their own are shown. Backspaces in a line erase what was typed before them.
-/

namespace Skiff

/-- What a session has to show: texts for the output and for errors. -/
structure Shown where
  output : String := ""
  errors : String := ""
  deriving DecidableEq, Repr

def Shown.append (first second : Shown) : Shown :=
  ⟨first.output ++ second.output, first.errors ++ second.errors⟩

structure Session where
  /-- The lines that were evaluated. -/
  files : FileSet := {}
  /-- Symbols, constants and the heap. -/
  state : CompileState
  globals : Array Value
  world : World
  /-- How many lines were evaluated. -/
  lines : Nat := 0
  deriving Inhabited

namespace Session

/-- The variable that holds the function that shows values. -/
def printName : String := "__repl_println__"

/-- Writes every argument on a line of its own. -/
def printFunction : HostFunction where
  name := printName
  run args _ := fun (heap, lines) =>
    .ok .undefined (heap, lines ++ (args.map heap.display).toArray)

/-- A session in which only the builtins and the function that shows values are known. -/
def start : Session :=
  let (table, id) := SymbolTable.withBuiltins.define printName
  let slot := (table.symbol id).index
  { state := { table }
    globals := (Array.replicate (slot + 1) .undefined).set! slot (.host 0 printName)
    world := { hosts := #[printFunction] } }

/-- An expression as a statement that shows its value. -/
def shownStmt : Stmt → Stmt
  | .expr span value =>
    let callee := Expr.name value.span printName
    .expr span (.call value.span callee (.mk [value] false [] none))
  | other => other

/-- The line to which a text is added. -/
private def asLine (text : String) : String := text ++ "\n"

/-- Runs a compiled line and keeps what it leaves behind. -/
def runProgram (fuel : Nat) (program : Program) : Session → Session × Shown
  | ⟨files, state, globals, world, lines⟩ =>
    let machine := Machine.load program {} globals state.heap world
    let (result, machine) := machine.run fuel
    let output := String.join (machine.world.transcript.toList.map asLine)
    let errors := match result with
      | some (.error e) => asLine e.message
      | _ => ""
    ({ files, lines
       state := { state with heap := machine.heap, files := {} }
       globals := machine.thread.globals
       world := { machine.world with transcript := #[] } }, { output, errors })

/-- Evaluates a line. -/
def eval (fuel : Nat) (line : String) : Session → Session × Shown
  | ⟨files, state, globals, world, lines⟩ =>
    let lines := lines + 1
    let (files, file) := files.add s!"repl:{lines}" line
    match Script.parse line file with
    | .error errors =>
      (⟨files, state, globals, world, lines⟩,
        { errors := String.join (errors.map fun e => asLine ("Parse Error: " ++ e.message)) })
    | .ok script =>
      let script := { script with stmts := script.stmts.map shownStmt }
      match Compile.program {} script { state with files, compiled := [], native := [] } with
      | .error e _ => (⟨files, state, globals, world, lines⟩, { errors := asLine (e.render files) })
      | .ok program state => runProgram fuel program ⟨files, state, globals, world, lines⟩

/-- The global variables and their values, by name. -/
def showGlobals (session : Session) : String :=
  let table := session.state.table
  let line? (name : String) : Option String := do
    let (_, found) := table.resolve name false
    let (id, _) ← found
    let symbol := table.symbol id
    guard (name ≠ printName ∧ symbol.storage = .global)
    let value ← session.globals[symbol.index]?
    return "  " ++ name ++ " = " ++ session.state.heap.display value
  String.join ((table.names.filterMap line?).map asLine)

def greeting : String :=
  "Skiff 0.1.0 - Interactive REPL\nType 'exit' or press Ctrl+D to quit, 'help' for commands.\n\n"

def help : String :=
  "Skiff REPL Commands:\n" ++
  "  help     - Show this help message\n" ++
  "  exit     - Exit the REPL (also: quit, Ctrl+D)\n" ++
  "  globals  - List global variables\n" ++
  "  reset    - Forget all definitions\n" ++
  "\n" ++
  "Examples:\n" ++
  "  >> x := 40\n" ++
  "  >> x + 2\n" ++
  "  42\n" ++
  "  >> sq := func(n) \x7b return n * n \x7d\n" ++
  "  >> sq(5)\n" ++
  "  25\n"

/-- Obeys a command or evaluates a line as it was typed; nothing if the session is over. -/
def input (session : Session) (fuel : Nat) (text : String) : Option (Session × Shown) :=
  match String.ofList (trimBlank (obeyBackspaces text.toList)) with
  | "" => some (session, {})
  | "exit" | "quit" => none
  | "help" => some (session, { output := help })
  | "globals" => some (session, { output := session.showGlobals })
  | "reset" => some (start, { output := "State reset.\n" })
  | line => some (session.eval fuel line)

/-- Takes lines until they end or the session is over. -/
def inputs (session : Session) (fuel : Nat) : List String → Shown → Shown
  | [], shown => shown
  | line :: rest, shown =>
    match session.input fuel line with
    | none => shown
    | some (session, more) => session.inputs fuel rest (shown.append more)

end Session

end Skiff
