import Skiff.Compile.Basic

/-!
# The code of syntax trees

Operands, arguments, items and entries are compiled from left to right. Every block has a scope
of its own, and so have the headers of conditional statements and loops.
-/

namespace Skiff

/-- What the code of a construct depends on besides the construct and the state. -/
structure CompileContext where
  /-- The text belongs to a module. -/
  inModule : Bool
  /-- The construct is in the body of a function expression. -/
  inFunction : Bool := false
  /-- The construct is in the body of a loop. -/
  inLoop : Bool := false
  /-- The code that pushes the value of a module. -/
  importModule : Span → String → Compile Fragment

namespace CompileContext

/-- The context of a function body. -/
def functionBody (context : CompileContext) : CompileContext :=
  { context with inFunction := true, inLoop := false }

/-- The context of a loop body. -/
def loopBody (context : CompileContext) : CompileContext := { context with inLoop := true }

end CompileContext

namespace Compile

mutual

def expr (context : CompileContext) : Expr → Compile Fragment
  | .literal span value => literal span value
  | .name span ident => name span ident
  | .array span items => do
    limit (items.length ≤ 0xFFFF) .tooManyElements span
    return (← exprs context items #[]) ++ Fragment.instr span .array [items.length]
  | .map span entries' => do
    limit (entries'.length * 2 ≤ 0xFFFF) .tooManyElements span
    return (← entries context entries' #[]) ++ Fragment.instr span .map [entries'.length * 2]
  | .func span params variadic body =>
    function span params variadic (block context.functionBody body)
  | .unary span op operand => do
    return (← expr context operand) ++ unary span op
  | .binary span op left right => do
    let left ← expr context left
    return binary span op left (← expr context right)
  | .cond span test yes no => do
    let test ← expr context test
    let yes ← expr context yes
    return .choice span test yes (← expr context no)
  | .call span callee (.mk positional spread named namedSpread) => do
    limit (positional.length ≤ 0xFF) .tooManyArguments span
    let callee ← expr context callee
    let code ← exprs context positional callee
    let code ← if named.isEmpty then pure code else do
      pure ((← namedArgs context named code) ++ Fragment.instr span .map [named.length * 2])
    let code ← optional context namedSpread code #[]
    let flags := (if spread then spreadFlag else 0) + (if named.isEmpty then 0 else namedFlag)
      + (if namedSpread.isSome then namedSpreadFlag else 0)
    return code ++ Fragment.instr span .call [positional.length, flags]
  | .index span object index => do
    let object ← expr context object
    return object ++ (← expr context index) ++ Fragment.instr span .index []
  | .select span object field => do
    let object ← expr context object
    return object ++ (← constant field.span (.string field.name)) ++ Fragment.instr span .index []
  | .slice span object low high => do
    let code ← expr context object
    let code ← optional context low code (.instr span .undefined [])
    let code ← optional context high code (.instr span .undefined [])
    return code ++ Fragment.instr span .slice []
  | .paren _ inner => expr context inner
  | .error span inner => do
    return (← expr context inner) ++ Fragment.instr span .error []
  | .immutable span inner => do
    return (← expr context inner) ++ Fragment.instr span .immutable []
  | .importModule span name => context.importModule span name

/-- Expressions one after the other, behind what has been compiled before them. -/
def exprs (context : CompileContext) : List Expr → Fragment → Compile Fragment
  | [], code => return code
  | first :: rest, code => do
    let item ← expr context first
    exprs context rest (code ++ item)

/-- Keys and values of a map. -/
def entries (context : CompileContext) : List Entry → Fragment → Compile Fragment
  | [], code => return code
  | .mk key span value :: rest, code => do
    let key ← constant span (.string key)
    let value ← expr context value
    entries context rest (code ++ key ++ value)

/-- Names and values of named arguments. -/
def namedArgs (context : CompileContext) : List NamedArg → Fragment → Compile Fragment
  | [], code => return code
  | .mk name value :: rest, code => do
    let key ← constant name.span (.string name.name)
    let value ← expr context value
    namedArgs context rest (code ++ key ++ value)

/-- An expression, or what stands for it if there is none. -/
def optional (context : CompileContext) : Option Expr → Fragment → Fragment → Compile Fragment
  | none, code, missing => return code ++ missing
  | some value, code, _ => do
    return code ++ (← expr context value)

/-- The selectors of an assignment target. -/
def selectors (context : CompileContext) : Expr → Compile Fragment
  | .index _ object index => do
    let before ← selectors context object
    return before ++ (← expr context index)
  | .select _ object field => do
    let before ← selectors context object
    return before ++ (← constant field.span (.string field.name))
  | _ => return #[]

def block (context : CompileContext) : Block → Compile Fragment
  | .mk _ body => inScope true (stmts context body #[])

def stmts (context : CompileContext) : List Stmt → Fragment → Compile Fragment
  | [], code => return code
  | first :: rest, code => do
    let item ← stmt context first
    stmts context rest (code ++ item)

def optionalStmt (context : CompileContext) : Option Stmt → Compile Fragment
  | none => return #[]
  | some body => stmt context body

def stmt (context : CompileContext) : Stmt → Compile Fragment
  | .expr span value => do
    return (← expr context value) ++ Fragment.instr span .pop []
  | .assign span op target value =>
    let isFunction := match value with
      | .func .. => true
      | _ => false
    assign span target op isFunction (expr context target) (expr context value)
      (selectors context target)
  | .count span up target =>
    assign span target (.update (if up then .add else .sub)) false (expr context target)
      (constant span (.int 1)) (selectors context target)
  | .block body => block context body
  | .cond span init test yes no => inScope true do
    let init ← optionalStmt context init
    let test ← expr context test
    let yes ← block context yes
    match no with
    | some no => return init ++ Fragment.choice span test yes (← stmt context no)
    | none => return init ++ Fragment.guarded span test yes
  | .loop span init test post body => inScope true do
    let init ← optionalStmt context init
    let test ← match test with
      | some test => do pure (some (← expr context test))
      | none => pure none
    let body ← block context.loopBody body
    let post ← optionalStmt context post
    return init ++ Fragment.loop span test body post
  | .forEach span key value iterable body =>
    inScope true (forEach span key value (expr context iterable) (block context.loopBody body))
  | .result span value => do
    limit (← get).table.inFunction .returnOutsideFunction span
    match value with
    | some value => return (← expr context value) ++ Fragment.instr span .ret [1]
    | none => return .instr span .ret [0]
  | .publish span value => do
    limit (!context.inFunction) .exportInsideFunction span
    limit context.inModule .exportOutsideModule span
    return (← expr context value) ++ Fragment.instr span .immutable []
      ++ Fragment.instr span .ret [1]
  | .leave span => do
    limit context.inLoop .breakOutsideLoop span
    return .exit span .leave
  | .next span => do
    limit context.inLoop .continueOutsideLoop span
    return .exit span .next
  | .empty _ => return #[]

end

end Compile

end Skiff
