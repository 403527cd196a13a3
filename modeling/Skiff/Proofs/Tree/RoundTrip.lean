import Skiff.Proofs.Tree.Script
import Skiff.Proofs.Tree.Statement

/-!
# Printing and reading again

Every script that is read from a text can be printed as tokens on one line, and whatever tokens are
chosen for its literals and keys, reading them gives the same script up to spans.
-/

namespace Skiff

open Script ParseState

/-! ## Every proper tree can be spelled -/

/-- Some token stands for a piece. -/
def Piece.Spellable (piece : Piece) : Prop := ∃ token, piece.Spells token

/-- All pieces can be spelled. -/
def Spellable (pieces : List Piece) : Prop := ∀ piece ∈ pieces, piece.Spellable

theorem Spellable.spelled {pieces : List Piece} (spellable : Spellable pieces) :
    ∃ tokens, Spelled pieces tokens := by
  induction pieces with
  | nil => exact ⟨[], .nil⟩
  | cons piece pieces ih =>
    obtain ⟨token, spells⟩ := spellable piece (by simp)
    obtain ⟨tokens, spelled⟩ := ih fun other member => spellable other (by simp [member])
    exact ⟨token :: tokens, .cons spells spelled⟩

section spellable
variable {pieces others : List Piece}

@[simp]
theorem spellable_mark (sign : Mark) : (Piece.mark sign).Spellable :=
  ⟨{ kind := .mark sign, span := {}, text := sign.text }, rfl, rfl, rfl⟩

@[simp]
theorem spellable_keyword (word : Keyword) : (Piece.keyword word).Spellable :=
  ⟨{ kind := .keyword word, span := {}, text := word.text }, rfl, rfl, rfl⟩

@[simp]
theorem spellable_ident (name : String) : (Piece.ident name).Spellable :=
  ⟨{ kind := .ident, span := {}, text := name }, rfl, rfl, rfl⟩

@[simp]
theorem spellable_key (key : String) : (Piece.key key).Spellable :=
  ⟨{ kind := .ident, span := {}, text := key }, rfl, .inl ⟨rfl, rfl⟩⟩

@[simp]
theorem spellable_nil : Spellable [] := by simp [Spellable]

@[simp]
theorem spellable_cons {piece : Piece} :
    Spellable (piece :: pieces) ↔ piece.Spellable ∧ Spellable pieces := by
  simp [Spellable]

@[simp]
theorem spellable_append : Spellable (pieces ++ others) ↔ Spellable pieces ∧ Spellable others := by
  simp [Spellable, or_imp, forall_and]

@[simp]
theorem spellable_dots (spread : Bool) : Spellable (dots spread) := by
  cases spread <;> simp [dots]

@[simp]
theorem spellable_commaList {items : List (List Piece)} :
    Spellable (commaList items) ↔ ∀ item ∈ items, Spellable item := by
  induction items with
  | nil => simp [commaList]
  | cons item items ih =>
    cases items with
    | nil => simp [commaList]
    | cons next items => simp [commaList, ih]

@[simp]
theorem spellable_spreadLast {spread : Bool} {items : List (List Piece)} :
    (∀ item ∈ spreadLast spread items, Spellable item) ↔ ∀ item ∈ items, Spellable item := by
  induction items with
  | nil => simp [spreadLast]
  | cons item items ih =>
    cases items with
    | nil => simp [spreadLast]
    | cons next items => rw [spreadLast, List.forall_mem_cons, ih, ← List.forall_mem_cons]

@[simp]
theorem spellable_endEach {stmts : List (List Piece)} :
    Spellable (endEach stmts) ↔ ∀ stmt ∈ stmts, Spellable stmt := by
  induction stmts with
  | nil => simp [endEach]
  | cons stmt stmts ih => simpa [endEach] using fun _ => ih

@[simp]
theorem spellable_optExpr {value : Option Expr} :
    Spellable (Expr.optPieces value) ↔ ∀ expr ∈ value, Spellable expr.pieces := by
  cases value <;> simp [Expr.optPieces]

section
variable {stmt : Option Stmt}

@[simp]
theorem spellable_optStmt : Spellable (Stmt.optPieces stmt) ↔ ∀ part ∈ stmt,
    Spellable part.pieces := by
  cases stmt <;> simp [Stmt.optPieces]

@[simp]
theorem spellable_init : Spellable (Stmt.initPieces stmt) ↔ ∀ part ∈ stmt,
    Spellable part.pieces := by
  cases stmt <;> simp [Stmt.initPieces]

@[simp]
theorem spellable_else : Spellable (Stmt.elsePieces stmt) ↔ ∀ part ∈ stmt,
    Spellable part.pieces := by
  cases stmt <;> simp [Stmt.elsePieces]

end

@[simp]
theorem spellable_block {body : Block} : Spellable body.pieces ↔ ∀ stmt ∈ body.stmts,
    Spellable stmt.pieces := by
  cases body
  simp [Block.pieces, Block.stmts]

@[simp]
theorem spellable_entry {entry : Entry} :
    Spellable entry.pieces ↔ Spellable entry.value.pieces := by
  cases entry
  simp [Entry.pieces, Entry.value]

@[simp]
theorem spellable_namedArg {arg : NamedArg} :
    Spellable arg.pieces ↔ Spellable arg.value.pieces := by
  cases arg
  simp [NamedArg.pieces, NamedArg.value]

@[simp]
theorem spellable_args {positional : List Expr} {spread : Bool} {named : List NamedArg}
    {namedSpread : Option Expr} :
      Spellable (Args.pieces (.mk positional spread named namedSpread)) ↔
      (∀ arg ∈ positional, Spellable arg.pieces) ∧ (∀ arg ∈ named, Spellable arg.value.pieces) ∧
        ∀ arg ∈ namedSpread, Spellable arg.pieces := by
  rw [Args.pieces, spellable_commaList, List.forall_mem_append, List.forall_mem_append,
    spellable_spreadLast, and_assoc]
  cases namedSpread <;> simp [Expr.spreadPieces]

end spellable

mutual

theorem Expr.Proper.spellable {expr : Expr} : expr.Proper → Spellable expr.pieces
  | .literal token spells => by simpa [Expr.pieces] using ⟨token, spells⟩
  | .name => by simp [Expr.pieces]
  | .array proper => by simpa [Expr.pieces] using fun item member => (proper item member).spellable
  | .map proper => by simpa [Expr.pieces] using fun entry member => (proper entry member).spellable
  | .func _ proper => by simpa [Expr.pieces] using fun stmt member => (proper stmt member).spellable
  | .unary _ proper => by simpa [Expr.pieces] using proper.spellable
  | .binary _ _ left right => by simpa [Expr.pieces] using ⟨left.spellable, right.spellable⟩
  | .cond _ _ test yes no => by
    simpa [Expr.pieces] using ⟨test.spellable, yes.spellable, no.spellable⟩
  | .call _ callee positional named namedSpread _ _ => by
    simpa [Expr.pieces] using ⟨callee.spellable, fun arg member =>
      (positional arg member).spellable,
      fun arg member => (named arg member).spellable, fun arg member =>
        (namedSpread arg member).spellable⟩
  | .index _ object index => by simpa [Expr.pieces] using ⟨object.spellable, index.spellable⟩
  | .select _ object => by simpa [Expr.pieces] using object.spellable
  | .slice _ object low high => by
    simpa [Expr.pieces] using ⟨object.spellable, fun bound member => (low bound member).spellable,
      fun bound member => (high bound member).spellable⟩
  | .paren inner | .error inner | .immutable inner => by simpa [Expr.pieces] using inner.spellable
  | .importModule token spells => by simpa [Expr.pieces] using ⟨token, spells⟩

theorem Stmt.Simple.spellable {stmt : Stmt} : stmt.Simple → Spellable stmt.pieces
  | .expr value => by simpa [Stmt.pieces] using value.spellable
  | .assign spelled target value => by
    simpa [Stmt.pieces, spelled] using ⟨target.spellable, value.spellable⟩
  | .count target => by simpa [Stmt.pieces] using target.spellable

theorem Stmt.Proper.spellable {stmt : Stmt} : stmt.Proper → Spellable stmt.pieces
  | .simple simple _ => simple.spellable
  | .block body => by simpa [Stmt.pieces] using fun stmt member => (body stmt member).spellable
  | .cond init test yes no _ => by
    simpa [Stmt.pieces] using ⟨fun stmt member => (init stmt member).spellable, test.spellable,
      fun stmt member => (yes stmt member).spellable, fun stmt member => (no stmt member).spellable⟩
  | .loop init _ test post _ body => by
    simpa [Stmt.pieces] using ⟨fun stmt member => (init stmt member).spellable,
      fun value member => (test value member).spellable, fun stmt member =>
      (post stmt member).spellable, fun stmt member => (body stmt member).spellable⟩
  | .forEach iterable body => by
    simpa [Stmt.pieces] using ⟨iterable.spellable, fun stmt member => (body stmt member).spellable⟩
  | .result value => by simpa [Stmt.pieces] using fun expr member => (value expr member).spellable
  | .publish value => by simpa [Stmt.pieces] using value.spellable
  | .leave | .next | .empty => by simp [Stmt.pieces]

end

/-! ## Scripts -/

theorem Parse.script_takes {stmts : List Stmt} (levels : Nat)
    (proper : ∀ stmt ∈ stmts, stmt.Proper) :
    Takes levels (·.kind = .endOfFile) (script levels) (endEach (stmts.map Stmt.pieces)) fun read =>
      read.stmts.map Stmt.bare = stmts.map Stmt.bare := by
  have fuel : levels ≤ (nested levels).fuel := by cases levels <;> exact Nat.le_refl _
  refine .lookAhead .any fun start _ => ?_
  cases levels with
  | zero => exact .vacuous (Nat.le_refl _)
  | succ levels =>
    have all : Takes (levels + 1) (·.kind = .endOfFile) (scriptStmts (levels + 1) (levels + 1) #[])
        (endEach (stmts.map Stmt.pieces)) fun read =>
          read.toList.map Stmt.bare = stmts.map Stmt.bare := by
      refine ((stmtList_takes
        (fun stmt member => stmtOf_takes (nested_rereads _) (proper stmt member) fuel)
        proper (Nat.le_refl _) (Nat.le_refl _) #[]).before fun _ => .inl).last
          fun read same => ?_
      refine .isOther (.nil fun _ kind => by simp [kind]) ?_
      exact .look _ tooManyErrors_eq fun _ _ _ _ => .pure (by simpa using same)
    exact all.last fun read same => .lookAhead .any fun stop _ => .pure same

/-- A script that has been read can be printed as tokens on one line, and reading any such tokens
gives the same script up to spans. -/
theorem Script.readScript_pieces {text : String} {file : UInt16} {script : Script}
    (accepted : parse text file = .ok script) :
    (∃ tokens, Spelled script.pieces tokens) ∧
    ∀ tokens last, Spelled script.pieces tokens → last.kind = .endOfFile →
      ∃ again, (ofTokens (tokens ++ [last])).readScript = .ok again ∧
        again.bare = script.bare := by
  have proper := (of_parse accepted).1
  have printed : script.pieces = endEach (script.stmts.map Stmt.pieces) := by
    rw [Script.pieces, Stmt.allPieces_eq]
  constructor
  · apply Spellable.spelled
    rw [printed]
    simpa using fun stmt member => (proper stmt member).spellable
  · intro tokens last spelled isEnd
    rw [printed] at spelled
    obtain ⟨again, read, same⟩ :=
      (Parse.script_takes (ofTokens (tokens ++ [last])).levels proper).apply spelled
        (by simp [levels, ofTokens]) ⟨last, [], rfl, isEnd⟩
    refine ⟨again, ?_, by simpa [Script.bare] using same⟩
    unfold readScript
    rw [read]
    rfl

/-- A script with operators of most levels, a call, a slice, a map and an iteration. -/
def mixedText : String :=
  "x := -a.b * c + d ? f(p, k=!q, r...) : [1, 2.5,]\nfor i in xs \x7b s[i ? 1 : 2:] += \x7bk: 'c'\x7d \x7d"

theorem Script.readScript_pieces_mixedText :
    ∃ script, parse mixedText 0 = .ok script ∧
      ((∃ tokens, Spelled script.pieces tokens) ∧
      ∀ tokens last, Spelled script.pieces tokens → last.kind = .endOfFile →
        ∃ again, (ofTokens (tokens ++ [last])).readScript = .ok again ∧
          again.bare = script.bare) := by
  have accepted : (parse mixedText 0).isOk = true := by decide +kernel
  cases read : parse mixedText 0 with
  | error errors =>
    rw [read] at accepted
    cases accepted
  | ok script => exact ⟨script, rfl, readScript_pieces read⟩

end Skiff
