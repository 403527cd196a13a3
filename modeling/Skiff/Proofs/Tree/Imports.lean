import Skiff.Tree.Basic

/-!
# What a tree imports

The names of the modules that a tree imports, those in the bodies of functions included, in the
order in which their code is produced. This is the order of the text, except that the value of an
assignment comes before the selectors of its target, and the body of a loop before the statement
that goes on to the next round. The target of an assignment with an operator is read first, so that
its selectors are met twice.
-/

namespace Skiff

/-- The imports of an assignment, given those of its target, of its value and of its selectors. -/
def AssignOp.imports (op : AssignOp) (target value selectors : List String) : List String :=
  match op with
  | .update _ => target ++ (value ++ selectors)
  | .define | .assign => value ++ selectors

mutual

/-- The names that are imported inside of an expression. -/
def Expr.imports : Expr → List String
  | .literal .. | .name .. => []
  | .array _ items => Expr.importsOfItems items
  | .map _ entries => Expr.importsOfEntries entries
  | .func _ _ _ body => body.imports
  | .unary _ _ operand => operand.imports
  | .binary _ _ left right => left.imports ++ right.imports
  | .cond _ test yes no => test.imports ++ (yes.imports ++ no.imports)
  | .call _ callee (.mk positional _ named namedSpread) =>
    callee.imports ++ (Expr.importsOfItems positional ++ (Expr.importsOfNamed named ++
      Expr.importsOfOptional namedSpread))
  | .index _ object index => object.imports ++ index.imports
  | .select _ object _ => object.imports
  | .slice _ object low high =>
    object.imports ++ (Expr.importsOfOptional low ++ Expr.importsOfOptional high)
  | .paren _ inner | .error _ inner | .immutable _ inner => inner.imports
  | .importModule _ name => [name]

def Expr.importsOfItems : List Expr → List String
  | [] => []
  | item :: items => item.imports ++ Expr.importsOfItems items

def Expr.importsOfEntries : List Entry → List String
  | [] => []
  | .mk _ _ value :: entries => value.imports ++ Expr.importsOfEntries entries

def Expr.importsOfNamed : List NamedArg → List String
  | [] => []
  | .mk _ value :: args => value.imports ++ Expr.importsOfNamed args

def Expr.importsOfOptional : Option Expr → List String
  | none => []
  | some value => value.imports

/-- The names that are imported inside of the selectors of a target. -/
def Expr.selectorImports : Expr → List String
  | .index _ object index => object.selectorImports ++ index.imports
  | .select _ object _ => object.selectorImports
  | _ => []

def Block.imports : Block → List String
  | .mk _ body => Stmt.importsOfItems body

def Stmt.importsOfItems : List Stmt → List String
  | [] => []
  | stmt :: body => stmt.imports ++ Stmt.importsOfItems body

def Stmt.importsOfOptional : Option Stmt → List String
  | none => []
  | some stmt => stmt.imports

/-- The names that are imported inside of a statement. -/
def Stmt.imports : Stmt → List String
  | .expr _ value => value.imports
  | .assign _ op target value => op.imports target.imports value.imports target.selectorImports
  | .count _ up target =>
    (AssignOp.update (if up then .add else .sub)).imports target.imports [] target.selectorImports
  | .block body => body.imports
  | .cond _ init test yes no =>
    Stmt.importsOfOptional init ++ (test.imports ++ (yes.imports ++ Stmt.importsOfOptional no))
  | .loop _ init test post body =>
    Stmt.importsOfOptional init ++ (Expr.importsOfOptional test ++ (body.imports ++
      Stmt.importsOfOptional post))
  | .forEach _ _ _ iterable body => iterable.imports ++ body.imports
  | .result _ value => Expr.importsOfOptional value
  | .publish _ value => value.imports
  | .leave _ | .next _ | .empty _ => []

end

/-- The names that a source file imports. -/
def Script.imports (script : Script) : List String := Stmt.importsOfItems script.stmts

end Skiff
