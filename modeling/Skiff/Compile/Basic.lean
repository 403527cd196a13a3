import Skiff.Builtin
import Skiff.Code.Fragment
import Skiff.Code.Tidy
import Skiff.Compile.Error
import Skiff.Compile.Module
import Skiff.Tree.Basic

/-!
# Producing code

The state of a compilation and the code of single constructs, given the code of their parts.
Parts come as computations, because names are looked up and constants numbered in the order in
which the parts are compiled.
-/

namespace Skiff

/-- What the code of a function has been made from. -/
structure Emission where
  /-- The number of the function. -/
  function : Nat
  /-- How many variables the function captures. -/
  captured : Nat := 0
  body : Fragment

structure CompileState where
  files : FileSet := {}
  constants : Array Value := #[]
  table : SymbolTable := {}
  heap : Heap := {}
  /-- The functions of the modules that have been compiled, by path. -/
  compiled : List (String × Value) := []
  /-- The constants that hold the native modules that have been imported, by name. -/
  native : List (String × Nat) := []
  /-- The imports that have been compiled, the last one first: what was imported, and the constant
  that holds it. -/
  imported : List (String × Nat) := []
  /-- What functions have been made from, the last one first. -/
  emitted : List Emission := []
  deriving Inhabited

/-- Compilations keep their state when they fail: it holds the files that errors point into. -/
abbrev Compile := EStateM CompileError CompileState

namespace Compile

def fail {α : Type} (fault : CompileFault) (span : Span) : Compile α := throw ⟨fault, span⟩

def limit (holds : Bool) (fault : CompileFault) (span : Span) : Compile Unit :=
  if holds then pure () else fail fault span

def define (name : String) : Compile Nat :=
  modifyGet fun state =>
    let (table, id) := state.table.define name
    (id, { state with table })

/-- Defines a variable that has no name in the source. -/
def defineHidden (name : String) : Compile Nat :=
  modifyGet fun state =>
    let (table, id) := state.table.defineHidden name
    (id, { state with table })

def resolve (name : String) : Compile (Option (Nat × Nat)) :=
  modifyGet fun state =>
    let (table, found) := state.table.resolve name false
    (found, { state with table })

def symbol (id : Nat) : Compile Symbol := return (← get).table.symbol id

def markAssigned (id : Nat) : Compile Unit :=
  modify fun state => { state with table := state.table.markAssigned id }

/-- Runs a computation in a scope of its own. -/
def inScope {α : Type} (block : Bool) (body : Compile α) : Compile α := do
  modify fun state => { state with table := state.table.enter block }
  let result ← body
  modify fun state => { state with table := state.table.leave }
  return result

/-- Constants are numbered with two bytes. -/
def addConstant (span : Span) (value : Value) : Compile Nat := do
  let index := (← get).constants.size
  limit (index ≤ 0xFFFF) .tooManyConstants span
  modify fun state => { state with constants := state.constants.push value }
  return index

def constant (span : Span) (value : Value) : Compile Fragment := do
  return .instr span .const [← addConstant span value]

/-- Slots are numbered with two bytes for globals and one byte for the others. -/
def checkSlot (span : Span) (symbol : Symbol) : Compile Unit :=
  match symbol.storage with
  | .global => limit (symbol.index ≤ 0xFFFF) .tooManyGlobals span
  | .local_ => limit (symbol.index ≤ 0xFF) .tooManyLocals span
  | .free => limit (symbol.index ≤ 0xFF) .tooManyFreeVariables span
  | .builtin => pure ()

/-- Pushes the value of a symbol. -/
def load (span : Span) (id : Nat) : Compile Fragment := do
  let symbol ← symbol id
  checkSlot span symbol
  let op := match symbol.storage with
    | .global => .getGlobal
    | .local_ => .getLocal
    | .builtin => .getBuiltin
    | .free => .getFree
  return .instr span op [symbol.index]

/-- Stores the value on top of the stack in a new variable. -/
def storeNew (span : Span) (id : Nat) : Compile Fragment := do
  let symbol ← symbol id
  checkSlot span symbol
  if symbol.storage = .global then return .instr span .setGlobal [symbol.index]
  markAssigned id
  return .instr span .defineLocal [symbol.index]

def name (span : Span) (name : String) : Compile Fragment := do
  match ← resolve name with
  | some (id, _) => load span id
  | none => fail (.unresolved name) span

def literal (span : Span) : Literal → Compile Fragment
  | .int n => constant span (.int n)
  | .float x => constant span (.float x)
  | .char c => constant span (.char c)
  | .string text => do
    limit (text.utf8ByteSize ≤ maxTextSize) .stringLimit span
    constant span (.string text)
  | .bool true => return .instr span .true_ []
  | .bool false => return .instr span .false_ []
  | .undefined => return .instr span .undefined []

def unary (span : Span) : UnaryOp → Fragment
  | .negate => .instr span .negate []
  | .not => .instr span .not []
  | .complement => .instr span .complement []
  | .plus => #[]

def binary (span : Span) (op : BinaryOp) (left right : Fragment) : Fragment :=
  match op with
  | .both => .shortCircuit span .jumpAnd left right
  | .either => .shortCircuit span .jumpOr left right
  | .equal => left ++ right ++ Fragment.instr span .equal []
  | .notEqual => left ++ right ++ Fragment.instr span .notEqual []
  | .strict op => left ++ right ++ Fragment.instr span .binary [op.number]

/-- The variable that an assignment goes to, and how many selectors stand behind it. -/
def target? : Expr → Option (String × Nat)
  | .name _ name => some (name, 0)
  | .index _ object _ | .select _ object _ =>
    (target? object).map fun (name, selectors) => (name, selectors + 1)
  | _ => none

/-- The symbol that an assignment goes to, if it can be known before the value is compiled. A new
function is known inside its own body; any other new variable only behind its value. -/
def targetSymbol (target : Expr) (name : String) (op : AssignOp) (isFunction : Bool) :
    Compile (Option Nat) := do
  match op, ← resolve name with
  | .define, some (_, 0) => fail (.redeclared name) target.span
  | .define, _ => if isFunction then return some (← define name) else return none
  | _, some (id, _) => return some id
  | _, none => fail (.unresolved name) target.span

/-- Stores the value below the selectors on the stack. -/
def store (span : Span) (target : Expr) (op : AssignOp) (id selectors : Nat) :
    Compile Fragment := do
  let symbol ← symbol id
  checkSlot span symbol
  let index := symbol.index
  match symbol.storage with
  | .global =>
    if 0 < selectors then return .instr span .setGlobalAt [index, selectors]
    else return .instr span .setGlobal [index]
  | .local_ =>
    markAssigned id
    if 0 < selectors then return .instr span .setLocalAt [index, selectors]
    else if op = .define ∧ ¬symbol.assigned then return .instr span .defineLocal [index]
    else return .instr span .setLocal [index]
  | .free =>
    if 0 < selectors then return .instr span .setFreeAt [index, selectors]
    else return .instr span .setFree [index]
  | .builtin => fail (.assignToBuiltin symbol.name) target.span

/-- An assignment. The value comes first, behind the old value of the target if the assignment
has an operator, and the selectors of the target last. -/
def assign (span : Span) (target : Expr) (op : AssignOp) (isFunction : Bool)
    (old value selectors : Compile Fragment) : Compile Fragment := do
  let some (name, count) := target? target | fail .assignTarget target.span
  limit (op != .define || count == 0) .defineWithSelector span
  limit (count ≤ 0xFF) .tooManyElements span
  let known ← targetSymbol target name op isFunction
  let valueCode ← match op with
    | .update op => do
      let old ← old
      let value ← value
      pure (old ++ value ++ Fragment.instr span .binary [op.number])
    | _ => value
  let id ← match known with
    | some id => pure id
    | none => define name
  let selectorCode ← selectors
  return valueCode ++ selectorCode ++ (← store span target op id count)

/-- Binds the current key or value of an iterator to a name, unless it is blank. -/
def bindElement (span : Span) (iterator : Nat) (ident : Ident) (op : Opcode) :
    Compile Fragment := do
  if ident.isBlank then return #[]
  let id ← define ident.name
  let iteratorCode ← load span iterator
  return iteratorCode ++ Fragment.instr ident.span op [] ++ (← storeNew ident.span id)

/-- A loop over the elements of a value, with an iterator in a hidden variable. -/
def forEach (span : Span) (key value : Ident) (iterable body : Compile Fragment) :
    Compile Fragment := do
  let iterator ← defineHidden ":it"
  let iterable ← iterable
  let start := iterable ++ Fragment.instr span .iterate [] ++ (← storeNew span iterator)
  let test := (← load span iterator) ++ Fragment.instr span .iterNext []
  let keyCode ← bindElement span iterator key .iterKey
  let valueCode ← bindElement span iterator value .iterValue
  let body ← body
  return start ++ Fragment.loop span (some test) (keyCode ++ valueCode ++ body) #[]

/-- Pushes the cell of a variable that a function captures. A variable that has no value yet gets
one, so that there is a cell to share. -/
def captureCell (span : Span) (id : Nat) : Compile Fragment := do
  let symbol ← symbol id
  match symbol.storage with
  | .local_ =>
    let fresh := if symbol.assigned then #[]
      else Fragment.instr span .undefined [] ++ Fragment.instr span .defineLocal [symbol.index]
    markAssigned id
    return fresh ++ Fragment.instr span .localCell [symbol.index]
  | .free => return .instr span .freeCell [symbol.index]
  | .global | .builtin => return #[]

def captureCells (span : Span) : List Nat → Compile Fragment
  | [] => return #[]
  | id :: rest => do
    let cell ← captureCell span id
    return cell ++ (← captureCells span rest)

/-- A new function object, whose code is made from a fragment. -/
def newFunction (captured : Nat) (body : Fragment) (function : Function) : Compile Value :=
  modifyGet fun state =>
    let (value, heap) := state.heap.newFunction function
    let emission := { function := state.heap.functions.size, captured, body }
    (value, { state with heap, emitted := emission :: state.emitted })

def defineParams : List Ident → Compile Unit
  | [] => return
  | param :: rest => do
    markAssigned (← define param.name)
    defineParams rest

/-- A function expression. -/
def function (span : Span) (params : List Ident) (variadic : Bool) (body : Compile Fragment) :
    Compile Fragment := do
  limit (params.length ≤ 0xFF) .tooManyLocals span
  let (body, scope) ← inScope false do
    defineParams params
    let body ← body
    return (body, (← get).table.current)
  let (code, map) := body.assemble
  let (code, map) := tidy code map span
  limit (scope.most ≤ 0x100) .tooManyLocals span
  limit (scope.captured.size ≤ 0xFF) .tooManyFreeVariables span
  let cells ← captureCells span scope.captured.toList
  let function ← newFunction scope.captured.size body
    { code, locals := scope.most, params := params.length, variadic, map }
  let index ← addConstant span function
  if scope.captured.isEmpty then return cells ++ Fragment.instr span .const [index]
  return cells ++ Fragment.instr span .closure [index, scope.captured.size]

end Compile

end Skiff
