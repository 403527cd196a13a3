import Mathlib.Data.List.Forall2
import Skiff.Tree.Parser

/-!
# Printed scripts

A script is printed as a sequence of pieces, each of which says what the token at its place has to
be. The print is canonical: every statement is followed by a semicolon, loops that are no iteration
have all three parts of their header, no comma stands behind a last item, and parentheses stand
where the tree has them and nowhere else. Trees are compared without their spans.
-/

namespace Skiff

open List

/-! ## Operators as marks -/

def UnaryOp.mark : UnaryOp → Mark
  | negate => .sub
  | plus => .add
  | not => .not
  | complement => .xor

def BinaryOp.mark : BinaryOp → Mark
  | strict op =>
    match op with
    | .add => .add
    | .sub => .sub
    | .mul => .mul
    | .quo => .quo
    | .rem => .rem
    | .and => .and
    | .or => .or
    | .xor => .xor
    | .andNot => .andNot
    | .shl => .shl
    | .shr => .shr
    | .less => .less
    | .greater => .greater
    | .lessEq => .lessEq
    | .greaterEq => .greaterEq
  | equal => .equal
  | notEqual => .notEqual
  | both => .logicalAnd
  | either => .logicalOr

/-- The mark of an assignment; the comparisons have none. -/
def AssignOp.mark? : AssignOp → Option Mark
  | assign => some .assign
  | define => some .define
  | update op =>
    match op with
    | .add => some .addAssign
    | .sub => some .subAssign
    | .mul => some .mulAssign
    | .quo => some .quoAssign
    | .rem => some .remAssign
    | .and => some .andAssign
    | .or => some .orAssign
    | .xor => some .xorAssign
    | .andNot => some .andNotAssign
    | .shl => some .shlAssign
    | .shr => some .shrAssign
    | .less | .greater | .lessEq | .greaterEq => none

@[simp]
theorem UnaryOp.unary?_mark (op : UnaryOp) : op.mark.unary? = some op := by
  cases op <;> rfl

@[simp]
theorem BinaryOp.continuation?_mark (op : BinaryOp) :
    op.mark.continuation? = some (.binary op) := by
  cases op with
  | strict op => cases op <;> rfl
  | _ => rfl

theorem AssignOp.mark?_eq_some {op : AssignOp} {mark : Mark} :
    op.mark? = some mark ↔ mark.assignment? = some op := by
  constructor
  · intro spelled
    cases op with
    | update op => cases op <;> cases spelled <;> rfl
    | _ => cases spelled; rfl
  · intro assigns
    cases mark <;> cases assigns <;> rfl

/-! ## Pieces -/

/-- What the token at a place of a printed script has to be. -/
inductive Piece where
  | keyword (word : Keyword)
  | mark (sign : Mark)
  | ident (name : String)
  | literal (value : Literal)
  /-- A text in double quotes. -/
  | quoted (text : String)
  /-- The key of a map entry. -/
  | key (text : String)
  deriving DecidableEq, Repr

namespace Piece

/-- A token has the kind that a piece asks for, and the text or the value. -/
def Denotes (token : Token) : Piece → Prop
  | keyword word => token.kind = .keyword word ∧ token.text = word.text
  | mark sign => token.kind = .mark sign ∧ token.text = sign.text
  | ident name => token.kind = .ident ∧ token.text = name
  | literal value => token.kind.isLiteral = true ∧ Parse.literalValue token = .ok value
  | quoted text => token.kind = .string ∧ Literal.readString token.text.toList = .ok text
  | key text =>
    (token.kind = .ident ∧ token.text = text) ∨
    (token.kind = .string ∧ Literal.readString token.text.toList = .ok text) ∨
    (token.kind = .rawString ∧ Literal.readRaw token.text.toList = text)

/-- A token stands for a piece, on the line of the token before it. -/
def Spells (piece : Piece) (token : Token) : Prop :=
  token.newlineBefore = false ∧ piece.Denotes token

end Piece

/-- A sequence of tokens on one line stands for a sequence of pieces. -/
def Spelled (pieces : List Piece) (tokens : List Token) : Prop :=
  Forall₂ Piece.Spells pieces tokens

/-! ## Printing -/

/-- Items with commas between them. -/
def commaList : List (List Piece) → List Piece
  | [] => []
  | [item] => item
  | item :: next :: items => item ++ .mark .comma :: commaList (next :: items)

/-- The dots behind the last item if it is spread. -/
def dots (spread : Bool) : List Piece := if spread then [.mark .ellipsis] else []

/-- Items of which the last one may be spread. -/
def spreadLast (spread : Bool) : List (List Piece) → List (List Piece)
  | [] => []
  | [item] => [item ++ dots spread]
  | item :: next :: items => item :: spreadLast spread (next :: items)

/-- Statements with a semicolon behind each. -/
def endEach (stmts : List (List Piece)) : List Piece := stmts.flatMap (· ++ [.mark .semicolon])

mutual

def Expr.pieces : Expr → List Piece
  | .literal _ value => [.literal value]
  | .name _ name => [.ident name]
  | .array _ items =>
    .mark .leftBracket :: commaList (Expr.allPieces items) ++ [.mark .rightBracket]
  | .map _ entries => .mark .leftBrace :: commaList (Entry.allPieces entries) ++ [.mark .rightBrace]
  | .func _ params variadic body =>
    .keyword .func :: .mark .leftParen :: commaList (params.map fun param => [.ident param.name])
      ++ dots variadic ++ .mark .rightParen :: body.pieces
  | .unary _ op operand => .mark op.mark :: operand.pieces
  | .binary _ op left right => left.pieces ++ .mark op.mark :: right.pieces
  | .cond _ test yes no =>
    test.pieces ++ .mark .question :: yes.pieces ++ .mark .colon :: no.pieces
  | .call _ callee args => callee.pieces ++ .mark .leftParen :: args.pieces ++ [.mark .rightParen]
  | .index _ object index =>
    object.pieces ++ .mark .leftBracket :: index.pieces ++ [.mark .rightBracket]
  | .select _ object field => object.pieces ++ [.mark .period, .ident field.name]
  | .slice _ object low high =>
    object.pieces ++ .mark .leftBracket :: Expr.optPieces low ++ .mark .colon :: Expr.optPieces high
      ++ [.mark .rightBracket]
  | .paren _ inner => .mark .leftParen :: inner.pieces ++ [.mark .rightParen]
  | .error _ inner =>
    .keyword .error :: .mark .leftParen :: inner.pieces ++ [.mark .rightParen]
  | .immutable _ inner =>
    .keyword .immutable :: .mark .leftParen :: inner.pieces ++ [.mark .rightParen]
  | .importModule _ name =>
    [.keyword .import_, .mark .leftParen, .quoted name, .mark .rightParen]

def Expr.allPieces : List Expr → List (List Piece)
  | [] => []
  | item :: items => item.pieces :: Expr.allPieces items

def Expr.optPieces : Option Expr → List Piece
  | none => []
  | some value => value.pieces

def Entry.pieces : Entry → List Piece
  | .mk key _ value => .key key :: .mark .colon :: value.pieces

def Entry.allPieces : List Entry → List (List Piece)
  | [] => []
  | entry :: entries => entry.pieces :: Entry.allPieces entries

def NamedArg.pieces : NamedArg → List Piece
  | .mk name value => .ident name.name :: .mark .assign :: value.pieces

def NamedArg.allPieces : List NamedArg → List (List Piece)
  | [] => []
  | arg :: args => arg.pieces :: NamedArg.allPieces args

def Args.pieces : Args → List Piece
  | .mk positional spread named namedSpread =>
    commaList (spreadLast spread (Expr.allPieces positional) ++ NamedArg.allPieces named
      ++ Expr.spreadPieces namedSpread)

def Expr.spreadPieces : Option Expr → List (List Piece)
  | none => []
  | some value => [value.pieces ++ dots true]

def Block.pieces : Block → List Piece
  | .mk _ stmts => .mark .leftBrace :: endEach (Stmt.allPieces stmts) ++ [.mark .rightBrace]

def Stmt.pieces : Stmt → List Piece
  | .expr _ value => value.pieces
  | .assign _ op target value =>
    target.pieces ++ op.mark?.toList.map .mark ++ value.pieces
  | .count _ up target => target.pieces ++ [.mark (if up then .inc else .dec)]
  | .block body => body.pieces
  | .cond _ init test yes no =>
    .keyword .if_ :: Stmt.initPieces init ++ test.pieces ++ yes.pieces ++ Stmt.elsePieces no
  | .loop _ init test post body =>
    .keyword .for_ :: Stmt.optPieces init ++ .mark .semicolon :: Expr.optPieces test
      ++ .mark .semicolon :: Stmt.optPieces post ++ body.pieces
  | .forEach _ key value iterable body =>
    .keyword .for_ :: .ident key.name :: .mark .comma :: .ident value.name :: .keyword .in_
      :: iterable.pieces ++ body.pieces
  | .result _ value => .keyword .return_ :: Expr.optPieces value
  | .publish _ value => .keyword .export_ :: value.pieces
  | .leave _ => [.keyword .break_]
  | .next _ => [.keyword .continue_]
  | .empty _ => []

def Stmt.allPieces : List Stmt → List (List Piece)
  | [] => []
  | stmt :: stmts => stmt.pieces :: Stmt.allPieces stmts

def Stmt.optPieces : Option Stmt → List Piece
  | none => []
  | some stmt => stmt.pieces

def Stmt.initPieces : Option Stmt → List Piece
  | none => []
  | some stmt => stmt.pieces ++ [.mark .semicolon]

def Stmt.elsePieces : Option Stmt → List Piece
  | none => []
  | some stmt => .keyword .else_ :: stmt.pieces

end

def Script.pieces (script : Script) : List Piece := endEach (Stmt.allPieces script.stmts)

/-! ## Trees without spans -/

def Ident.bare (ident : Ident) : Ident := ⟨ident.name, {}⟩

mutual

def Expr.bare : Expr → Expr
  | .literal _ value => .literal {} value
  | .name _ name => .name {} name
  | .array _ items => .array {} (Expr.allBare items)
  | .map _ entries => .map {} (Entry.allBare entries)
  | .func _ params variadic body => .func {} (params.map Ident.bare) variadic body.bare
  | .unary _ op operand => .unary {} op operand.bare
  | .binary _ op left right => .binary {} op left.bare right.bare
  | .cond _ test yes no => .cond {} test.bare yes.bare no.bare
  | .call _ callee args => .call {} callee.bare args.bare
  | .index _ object index => .index {} object.bare index.bare
  | .select _ object field => .select {} object.bare field.bare
  | .slice _ object low high => .slice {} object.bare (Expr.optBare low) (Expr.optBare high)
  | .paren _ inner => .paren {} inner.bare
  | .error _ inner => .error {} inner.bare
  | .immutable _ inner => .immutable {} inner.bare
  | .importModule _ name => .importModule {} name

def Expr.allBare : List Expr → List Expr
  | [] => []
  | item :: items => item.bare :: Expr.allBare items

def Expr.optBare : Option Expr → Option Expr
  | none => none
  | some value => some value.bare

def Entry.bare : Entry → Entry
  | .mk key _ value => .mk key {} value.bare

def Entry.allBare : List Entry → List Entry
  | [] => []
  | entry :: entries => entry.bare :: Entry.allBare entries

def NamedArg.bare : NamedArg → NamedArg
  | .mk name value => .mk name.bare value.bare

def NamedArg.allBare : List NamedArg → List NamedArg
  | [] => []
  | arg :: args => arg.bare :: NamedArg.allBare args

def Args.bare : Args → Args
  | .mk positional spread named namedSpread =>
    .mk (Expr.allBare positional) spread (NamedArg.allBare named) (Expr.optBare namedSpread)

def Block.bare : Block → Block
  | .mk _ stmts => .mk {} (Stmt.allBare stmts)

def Stmt.bare : Stmt → Stmt
  | .expr _ value => .expr {} value.bare
  | .assign _ op target value => .assign {} op target.bare value.bare
  | .count _ up target => .count {} up target.bare
  | .block body => .block body.bare
  | .cond _ init test yes no =>
    .cond {} (Stmt.optBare init) test.bare yes.bare (Stmt.optBare no)
  | .loop _ init test post body =>
    .loop {} (Stmt.optBare init) (Expr.optBare test) (Stmt.optBare post) body.bare
  | .forEach _ key value iterable body =>
    .forEach {} key.bare value.bare iterable.bare body.bare
  | .result _ value => .result {} (Expr.optBare value)
  | .publish _ value => .publish {} value.bare
  | .leave _ => .leave {}
  | .next _ => .next {}
  | .empty _ => .empty {}

def Stmt.allBare : List Stmt → List Stmt
  | [] => []
  | stmt :: stmts => stmt.bare :: Stmt.allBare stmts

def Stmt.optBare : Option Stmt → Option Stmt
  | none => none
  | some stmt => some stmt.bare

end

/-- A script without spans: its statements. -/
def Script.bare (script : Script) : List Stmt := Stmt.allBare script.stmts

section lists

@[simp]
theorem Expr.allPieces_eq (items : List Expr) : Expr.allPieces items = items.map Expr.pieces := by
  induction items with
  | nil => rw [Expr.allPieces, map_nil]
  | cons item items ih => rw [Expr.allPieces, ih, map_cons]

@[simp]
theorem Entry.allPieces_eq (entries : List Entry) :
    Entry.allPieces entries = entries.map Entry.pieces := by
  induction entries with
  | nil => rw [Entry.allPieces, map_nil]
  | cons entry entries ih => rw [Entry.allPieces, ih, map_cons]

@[simp]
theorem NamedArg.allPieces_eq (args : List NamedArg) :
    NamedArg.allPieces args = args.map NamedArg.pieces := by
  induction args with
  | nil => rw [NamedArg.allPieces, map_nil]
  | cons arg args ih => rw [NamedArg.allPieces, ih, map_cons]

@[simp]
theorem Stmt.allPieces_eq (stmts : List Stmt) : Stmt.allPieces stmts = stmts.map Stmt.pieces := by
  induction stmts with
  | nil => rw [Stmt.allPieces, map_nil]
  | cons stmt stmts ih => rw [Stmt.allPieces, ih, map_cons]

@[simp]
theorem Expr.allBare_eq (items : List Expr) : Expr.allBare items = items.map Expr.bare := by
  induction items with
  | nil => rw [Expr.allBare, map_nil]
  | cons item items ih => rw [Expr.allBare, ih, map_cons]

@[simp]
theorem Expr.optBare_eq (value : Option Expr) : Expr.optBare value = value.map Expr.bare := by
  cases value <;> rw [Expr.optBare] <;> rfl

@[simp]
theorem Entry.allBare_eq (entries : List Entry) :
    Entry.allBare entries = entries.map Entry.bare := by
  induction entries with
  | nil => rw [Entry.allBare, map_nil]
  | cons entry entries ih => rw [Entry.allBare, ih, map_cons]

@[simp]
theorem NamedArg.allBare_eq (args : List NamedArg) :
    NamedArg.allBare args = args.map NamedArg.bare := by
  induction args with
  | nil => rw [NamedArg.allBare, map_nil]
  | cons arg args ih => rw [NamedArg.allBare, ih, map_cons]

@[simp]
theorem Stmt.allBare_eq (stmts : List Stmt) : Stmt.allBare stmts = stmts.map Stmt.bare := by
  induction stmts with
  | nil => rw [Stmt.allBare, map_nil]
  | cons stmt stmts ih => rw [Stmt.allBare, ih, map_cons]

@[simp]
theorem Stmt.optBare_eq (stmt : Option Stmt) : Stmt.optBare stmt = stmt.map Stmt.bare := by
  cases stmt <;> rw [Stmt.optBare] <;> rfl

end lists

/-! ## Spellings of parts -/

section spelled
variable {piece : Piece} {pieces others : List Piece} {tokens : List Token}

theorem Spelled.uncons (spelled : Spelled (piece :: pieces) tokens) :
    ∃ token rest, tokens = token :: rest ∧ piece.Spells token ∧ Spelled pieces rest := by
  cases spelled with
  | cons spells rest => exact ⟨_, _, rfl, spells, rest⟩

theorem Spelled.eq_nil (spelled : Spelled [] tokens) : tokens = [] := by
  cases spelled
  rfl

theorem Spelled.inline (spelled : Spelled pieces tokens) :
    ∀ token ∈ tokens, token.newlineBefore = false := by
  induction spelled with
  | nil => simp
  | cons spells _ ih => simpa using ⟨spells.1, ih⟩

theorem Spelled.split (spelled : Spelled (pieces ++ others) tokens) :
    ∃ front back, tokens = front ++ back ∧ Spelled pieces front ∧ Spelled others back := by
  induction pieces generalizing tokens with
  | nil => exact ⟨[], tokens, rfl, .nil, spelled⟩
  | cons piece pieces ih =>
    obtain ⟨token, rest, rfl, spells, spelled⟩ := spelled.uncons
    obtain ⟨front, back, rfl, first, second⟩ := ih spelled
    exact ⟨token :: front, back, rfl, .cons spells first, second⟩

end spelled

end Skiff
