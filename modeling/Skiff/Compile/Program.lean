import Skiff.Compile.Tree
import Skiff.Program
import Skiff.Tree.Parser

/-!
# Compiling programs and modules

A module is compiled once into a function without parameters, and every import calls it. What a
module declares is local to that function. Importing a module while it is being compiled is an
error.
-/

namespace Skiff

/-- What a program may import. -/
structure Imports where
  modules : ModuleMap := .empty
  files : Option FileImports := none

namespace Compile

/-- A symbol table for a module: the builtins of the importer, and a function scope. -/
def moduleTable (importer : SymbolTable) : SymbolTable :=
  (importer.builtins.foldl (fun (table : SymbolTable) builtin =>
    (table.defineBuiltin builtin.index builtin.name).1) {}).enter false

/-- Runs a computation on another symbol table and comes back to the one before. -/
def withTable {α : Type} (table : SymbolTable) (body : Compile α) : Compile α := do
  let before := (← get).table
  modify fun state => { state with table }
  let result ← body
  modify fun state => { state with table := before }
  return result

/-- Reads the text of a module into a syntax tree. -/
def moduleScript (span : Span) (path text : String) : Compile Script := do
  let file ← modifyGet fun state =>
    let (files, file) := state.files.add path text
    (file, { state with files })
  match Script.parse text file with
  | .ok script => return script
  | .error errors =>
    let message := errors.head?.elim "" ParseError.message
    fail (.moduleParse path message) (errors.head?.elim span ParseError.span)

/-- The function of a module whose text has been read. -/
def moduleFunction (context : CompileContext) (script : Script) : Compile Value := do
  let table := moduleTable (← get).table
  let (body, locals) ← withTable table do
    let body ← stmts context script.stmts #[]
    return (body, (← get).table.current.most)
  limit (locals ≤ 0x100) .tooManyLocals script.span
  let (code, map) := body.assemble
  let (code, map) := tidy code map script.span
  newFunction 0 body { code, locals, map }

def noteImport (path : String) (index : Nat) : Compile Unit :=
  modify fun state => { state with imported := (path, index) :: state.imported }

/-- Calls the function of a module, which is compiled by `body` if it has not been before. The
modules that are being compiled are `open_`. -/
def callModule (open_ : List String) (span : Span) (path : String) (body : Compile Value) :
    Compile Fragment := do
  limit (!open_.contains path) (.cyclicImport path) span
  let function ← match (← get).compiled.lookup path with
    | some function => pure function
    | none => do
      let function ← body
      modify fun state => { state with compiled := (path, function) :: state.compiled }
      pure function
  let index ← addConstant span function
  noteImport path index
  return Fragment.instr span .const [index] ++ Fragment.instr span .call [0, 0]

/-- Pushes the map of a native module, which is made at its first import. -/
def nativeModule (span : Span) (name : String) (entries : Dict Value) : Compile Fragment := do
  let index ← match (← get).native.lookup name with
    | some index => pure index
    | none => do
      let value ← modifyGet fun state =>
        let (value, heap) := state.heap.newMap entries
        (value.immutable, { state with heap })
      let index ← addConstant span value
      modify fun state => { state with native := (name, index) :: state.native }
      pure index
  noteImport name index
  return .instr span .const [index]

/-- Imports a module. At most `fuel` modules may be open inside one another. -/
def importModule (modules : ModuleMap) : (fuel : Nat) → (files : Option FileImports) →
    (open_ : List String) → Span → String → Compile Fragment
  | fuel, files, open_, span, name => do
    limit (name ≠ "") .emptyModuleName span
    let body (files : Option FileImports) (path text : String) : Compile Value :=
      match fuel with
      | 0 => fail (.cyclicImport path) span
      | fuel + 1 => do
        let script ← moduleScript span path text
        let importModule := importModule modules fuel files (path :: open_)
        moduleFunction { inModule := true, importModule } script
    match modules.get? name, files with
    | some (.source text), _ => callModule open_ span name (body files name text)
    | some (.native entries), _ => nativeModule span name entries
    | none, some files =>
      let path := files.path name
      match files.read path with
      | .ok text =>
        callModule open_ span path
          (body (some { files with directory := Path.parent path }) path text)
      | .error e => fail (.moduleFile path e) span
    | none, none => fail (.moduleNotFound name) span

/-- How many modules may be open inside one another: all those that have names, and files. -/
def importDepth (imports : Imports) : Nat := imports.modules.size + imports.files.elim 0 (·.depth)

/-- The program of a syntax tree. -/
def program (imports : Imports) (script : Script) : Compile Program := do
  let importModule := importModule imports.modules (importDepth imports) imports.files []
  let body ← stmts { inModule := false, importModule } script.stmts #[]
  let (code, map) := body.assemble
  let main := (← get).heap.functions.size
  let _ ← newFunction 0 body { code := (Opcode.suspend.encode []).foldl ByteArray.push code, map }
  let state ← get
  return { files := state.files, main, constants := state.constants }

end Compile

/-- Why a source text has no program. -/
inductive SourceError where
  | parse (errors : List ParseError)
  | compile (error : CompileError) (files : FileSet)

/-- The first error and how many there are besides it. -/
def SourceError.message : SourceError → String
  | parse [] => "Parse Error: "
  | parse [error] => "Parse Error: " ++ error.message
  | parse (error :: rest) =>
    let message := error.message
    s!"Parse Error: {message} (and {rest.length} more)"
  | compile error files => error.render files

/-- The program of a source text, which becomes the next file of the state. -/
def Program.ofText (imports : Imports) (name text : String) (state : CompileState) :
    Except SourceError (Program × CompileState) :=
  let (files, file) := state.files.add name text
  match Script.parse text file with
  | .error errors => .error (.parse errors)
  | .ok script =>
    match Compile.program imports script { state with files } with
    | .ok program state => .ok (program, state)
    | .error error state => .error (.compile error state.files)

end Skiff
