import Skiff.Tree.Basic

/-!
# All expressions of a tree

What holds of an expression and of all expressions inside of it, those in the bodies of functions
included.
-/

namespace Skiff

mutual

/-- A property of an expression and of all expressions inside of it. -/
def Expr.All (holds : Expr → Prop) : Expr → Prop
  | .literal span value => holds (.literal span value)
  | .name span name => holds (.name span name)
  | .array span items => holds (.array span items) ∧ Expr.AllItems holds items
  | .map span entries => holds (.map span entries) ∧ Expr.AllEntries holds entries
  | .func span params variadic body => holds (.func span params variadic body) ∧ body.All holds
  | .unary span op operand => holds (.unary span op operand) ∧ operand.All holds
  | .binary span op left right =>
    holds (.binary span op left right) ∧ left.All holds ∧ right.All holds
  | .cond span test yes no =>
    holds (.cond span test yes no) ∧ test.All holds ∧ yes.All holds ∧ no.All holds
  | .call span callee (.mk positional spread named namedSpread) =>
    holds (.call span callee (.mk positional spread named namedSpread)) ∧ callee.All holds ∧
      Expr.AllItems holds positional ∧ Expr.AllNamed holds named ∧
        Expr.AllOptional holds namedSpread
  | .index span object index =>
    holds (.index span object index) ∧ object.All holds ∧ index.All holds
  | .select span object field => holds (.select span object field) ∧ object.All holds
  | .slice span object low high =>
    holds (.slice span object low high) ∧ object.All holds ∧ Expr.AllOptional holds low ∧
      Expr.AllOptional holds high
  | .paren span inner => holds (.paren span inner) ∧ inner.All holds
  | .error span inner => holds (.error span inner) ∧ inner.All holds
  | .immutable span inner => holds (.immutable span inner) ∧ inner.All holds
  | .importModule span name => holds (.importModule span name)

def Expr.AllItems (holds : Expr → Prop) : List Expr → Prop
  | [] => True
  | item :: items => item.All holds ∧ Expr.AllItems holds items

def Expr.AllEntries (holds : Expr → Prop) : List Entry → Prop
  | [] => True
  | .mk _ _ value :: entries => value.All holds ∧ Expr.AllEntries holds entries

def Expr.AllNamed (holds : Expr → Prop) : List NamedArg → Prop
  | [] => True
  | .mk _ value :: args => value.All holds ∧ Expr.AllNamed holds args

def Expr.AllOptional (holds : Expr → Prop) : Option Expr → Prop
  | none => True
  | some value => value.All holds

def Block.All (holds : Expr → Prop) : Block → Prop
  | .mk _ body => Stmt.AllItems holds body

def Stmt.AllItems (holds : Expr → Prop) : List Stmt → Prop
  | [] => True
  | stmt :: body => stmt.All holds ∧ Stmt.AllItems holds body

def Stmt.AllOptional (holds : Expr → Prop) : Option Stmt → Prop
  | none => True
  | some stmt => stmt.All holds

/-- A property of all expressions inside of a statement. -/
def Stmt.All (holds : Expr → Prop) : Stmt → Prop
  | .expr _ value => value.All holds
  | .assign _ _ target value => target.All holds ∧ value.All holds
  | .count _ _ target => target.All holds
  | .block body => body.All holds
  | .cond _ init test yes no =>
    Stmt.AllOptional holds init ∧ test.All holds ∧ yes.All holds ∧ Stmt.AllOptional holds no
  | .loop _ init test post body =>
    Stmt.AllOptional holds init ∧ Expr.AllOptional holds test ∧ Stmt.AllOptional holds post ∧
      body.All holds
  | .forEach _ _ _ iterable body => iterable.All holds ∧ body.All holds
  | .result _ value => Expr.AllOptional holds value
  | .publish _ value => value.All holds
  | .leave _ | .next _ | .empty _ => True

end

section
variable {holds : Expr → Prop}

theorem Expr.allNamed_iff {args : List NamedArg} :
    Expr.AllNamed holds args ↔ ∀ name value, .mk name value ∈ args → value.All holds := by
  induction args with
  | nil => simp [Expr.AllNamed]
  | cons arg args ih =>
    obtain ⟨name, value⟩ := arg
    rw [Expr.AllNamed, ih]
    constructor
    · intro all name' value' member
      rcases List.mem_cons.1 member with same | later
      · cases same
        exact all.1
      · exact all.2 name' value' later
    · intro all
      exact ⟨all name value (List.mem_cons_self ..), fun name' value' later =>
        all name' value' (List.mem_cons_of_mem _ later)⟩

end

/-- A property of all expressions of a source file. -/
def Script.All (holds : Expr → Prop) (script : Script) : Prop := Stmt.AllItems holds script.stmts

end Skiff
