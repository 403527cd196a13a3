import Std.Data.HashMap

/-!
# Scopes and symbols

A symbol table knows the scopes that are open, innermost first, and every symbol that was ever
made. Functions and blocks open scopes; a block continues the slot numbers of the function
around it and gives them back when it is left. Names outside all functions are global, and
their slots are counted at the outermost scope and never given back.

Looking a name up from inside a function captures a local variable of an outer function: every
function on the way gets a free symbol for it.
-/

namespace Skiff

/-- Where the value of a symbol lives. -/
inductive Storage where
  | global | local_ | builtin | free
  deriving DecidableEq, Repr, Inhabited

structure Symbol where
  name : String
  storage : Storage
  index : Nat
  /-- Set once a local variable has been stored to. Before that, the name is looked up in the
  scopes around it. -/
  assigned : Bool := false
  deriving DecidableEq, Repr, Inhabited

structure Scope where
  /-- Scopes are numbered in the order in which they were opened. -/
  number : Nat
  block : Bool
  /-- The symbol of each name, as an index into the symbols of the table. -/
  names : Std.HashMap String Nat := {}
  /-- How many slots the scope itself uses. -/
  defined : Nat := 0
  /-- The most slots that were ever in use in the scope and the blocks inside it. -/
  most : Nat := 0
  /-- The symbols of outer functions that this function captures, in order of capture. -/
  captured : Array Nat := #[]
  deriving Inhabited

structure SymbolTable where
  symbols : Array Symbol := #[]
  current : Scope := { number := 0, block := false }
  /-- The scopes around the current one, innermost first. -/
  outer : List Scope := []
  /-- How many scopes were ever opened. -/
  opened : Nat := 1
  deriving Inhabited

namespace SymbolTable

/-- The open scopes, innermost first. -/
def chain (table : SymbolTable) : List Scope := table.current :: table.outer

def symbol (table : SymbolTable) (id : Nat) : Symbol := table.symbols.getD id default

/-- The scope around all others. -/
def root (table : SymbolTable) : Scope := table.outer.getLastD table.current

/-- Whether the innermost function of a chain has anything around it. -/
def chainInFunction : List Scope → Bool
  | [] => false
  | scope :: outer => if scope.block then chainInFunction outer else !outer.isEmpty

/-- Whether the current scope is inside a function. -/
def inFunction (table : SymbolTable) : Bool := chainInFunction table.chain

/-- The first slot that is not in use: blocks count on from the scope around them. -/
def nextSlot : List Scope → Nat
  | [] => 0
  | scope :: outer => if scope.block then nextSlot outer + scope.defined else scope.defined

/-- Notes that a number of slots is in use, in a scope and in what it is a block of. -/
def noteSlots (count : Nat) : List Scope → List Scope
  | [] => []
  | scope :: outer =>
    let scope := { scope with most := max scope.most count }
    scope :: if scope.block then noteSlots count outer else outer

/-- Counts one more slot at the outermost scope. -/
def countAtRoot : List Scope → List Scope
  | [] => []
  | [root] => [{ root with defined := root.defined + 1 }]
  | scope :: outer => scope :: countAtRoot outer

def withChain (table : SymbolTable) : List Scope → SymbolTable
  | [] => table
  | current :: outer => { table with current, outer }

/-- Adds a symbol under its name to the current scope. -/
def addSymbol (table : SymbolTable) (symbol : Symbol) : SymbolTable × Nat :=
  let id := table.symbols.size
  ({ table with
      symbols := table.symbols.push symbol
      current := { table.current with names := table.current.names.insert symbol.name id } }, id)

/-- Takes the next slot for a variable of the current scope: where the variable lives, and the
number of the slot. -/
def takeSlot (table : SymbolTable) : SymbolTable × Storage × Nat :=
  let index := nextSlot table.chain
  let inside := table.inFunction
  let table :=
    if inside then
      { table with current := { table.current with defined := table.current.defined + 1 } }
    else table.withChain (countAtRoot table.chain)
  let table := table.withChain (noteSlots (index + 1) table.chain)
  (table, if inside then .local_ else .global, index)

/-- Defines a variable in the current scope and gives it the next slot. -/
def define (table : SymbolTable) (name : String) : SymbolTable × Nat :=
  let (table, storage, index) := table.takeSlot
  table.addSymbol { name, storage, index }

/-- Gives the next slot to a variable that no look-up finds. -/
def defineHidden (table : SymbolTable) (name : String) : SymbolTable × Nat :=
  let (table, storage, index) := table.takeSlot
  ({ table with symbols := table.symbols.push { name, storage, index } }, table.symbols.size)

def defineBuiltin (table : SymbolTable) (index : Nat) (name : String) : SymbolTable × Nat :=
  table.addSymbol { name, storage := .builtin, index }

/-- Notes that a variable has been stored to. -/
def markAssigned (table : SymbolTable) (id : Nat) : SymbolTable :=
  { table with symbols := table.symbols.modify id fun symbol => { symbol with assigned := true } }

/-- What a look-up found: the symbol, how many scopes were crossed, and the scopes and symbols
with the captures that the look-up made. -/
structure Resolution where
  id : Nat
  depth : Nat
  scopes : List Scope
  symbols : Array Symbol

/-- Captures a symbol of an outer function in a function scope. -/
def capture (scope : Scope) (symbols : Array Symbol) (id : Nat) : Scope × Array Symbol × Nat :=
  let name := (symbols.getD id default).name
  let free := symbols.size
  ({ scope with captured := scope.captured.push id, names := scope.names.insert name free },
    symbols.push { name, storage := .free, index := scope.captured.size }, free)

/-- Whether a look-up may stop at a symbol. A local variable without a value is passed over,
except from an inner scope. -/
def visible (symbol : Symbol) (inner : Bool) : Bool :=
  symbol.storage != .local_ || symbol.assigned || inner

/-- Looks a name up from the first scope of a chain outwards. -/
def resolveIn (name : String) (symbols : Array Symbol) : List Scope → Bool → Option Resolution
  | [], _ => none
  | scope :: outer, inner =>
    let here := scope.names[name]?.filter fun id => visible (symbols.getD id default) inner
    match here with
    | some id => some { id, depth := 0, scopes := scope :: outer, symbols }
    | none =>
      match resolveIn name symbols outer true with
      | none => none
      | some found =>
        let storage := (found.symbols.getD found.id default).storage
        if !scope.block && (storage == .local_ || storage == .free) then
          let (scope, symbols, id) := capture scope found.symbols found.id
          some { id, depth := found.depth + 1, scopes := scope :: found.scopes, symbols }
        else some { found with depth := found.depth + 1, scopes := scope :: found.scopes }

/-- Looks a name up from the current scope outwards: the symbol, and how many scopes were
crossed. With `inner` the current scope counts as an inner one. -/
def resolve (table : SymbolTable) (name : String) (inner : Bool) :
    SymbolTable × Option (Nat × Nat) :=
  match resolveIn name table.symbols table.chain inner with
  | some found =>
    ({ table with symbols := found.symbols }.withChain found.scopes, some (found.id, found.depth))
  | none => (table, none)

/-- Opens a scope inside the current one. -/
def enter (table : SymbolTable) (block : Bool) : SymbolTable :=
  { table with
    current := { number := table.opened, block }
    outer := table.current :: table.outer
    opened := table.opened + 1 }

/-- Goes back to the scope around the current one; the outermost scope is never left. -/
def leave (table : SymbolTable) : SymbolTable :=
  match table.outer with
  | current :: outer => { table with current, outer }
  | [] => table

/-- The names of the current scope in order. -/
def names (table : SymbolTable) : List String :=
  table.current.names.keys.mergeSort fun a b => a ≤ b

/-- The global variables of the outermost scope with their slots. -/
def globalNames (table : SymbolTable) : List (String × Nat) :=
  (table.root.names.toList.map fun (name, id) => (name, table.symbol id)).filterMap
    fun (name, symbol) => if symbol.storage == .global then some (name, symbol.index) else none

/-- The builtins of the outermost scope in the order of their indexes. -/
def builtins (table : SymbolTable) : List Symbol :=
  let found := table.root.names.values.map table.symbol
  (found.filter fun symbol => symbol.storage == .builtin).mergeSort fun a b => a.index ≤ b.index

end SymbolTable

end Skiff
