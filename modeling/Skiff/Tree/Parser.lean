import Skiff.Token.Stream
import Skiff.Tree.Basic
import Skiff.Tree.Error

/-!
# Reading scripts

A recursive-descent parser with one token of lookahead. Statements end at a semicolon, at a
line break, before a closing brace or at the end of the file, and an operator on a new line
never continues the expression before it. After an error the rest of the statement is skipped
and reading goes on, so that one run can report several errors.

Nested constructs are read through a `Nested` record, whose parsers work one level further
down. Every level consumes a token, so as many levels as there are tokens are enough, and the
number of levels left also bounds every loop over the tokens.
-/

namespace Skiff

/-- Reading stops once this many errors have been recorded. -/
def maxParseErrors : Nat := 10

/-- The tokens still to be read and the errors found so far, in order. -/
structure ParseState where
  stream : Stream
  errors : Array ParseError := #[]

/-- Parsers keep the state when they fail, so that reading can go on behind the error. -/
abbrev Parse := EStateM ParseError ParseState

namespace Parse

/-- The next token, which stays in the stream. -/
def next : Parse Token := do return (← get).stream.next

def nextKind : Parse Kind := do return (← next).kind

def advance : Parse Token := modifyGet fun state =>
  let (token, stream) := state.stream.advance
  (token, { state with stream })

def isNext (kind : Kind) : Parse Bool := do return (← nextKind) == kind

/-- Whether the token after the next one has the given kind. -/
def isSecond (kind : Kind) : Parse Bool := do return (← get).stream.second.kind == kind

/-- Takes the next token if it has the given kind. -/
def accept (kind : Kind) : Parse Bool := do
  if ← isNext kind then
    discard advance
    return true
  else return false

def record (error : ParseError) : Parse Unit :=
  modify fun state => { state with errors := state.errors.push error }

/-- Records an error and fails with it. -/
def fail {α : Type} (error : ParseError) : Parse α := do
  record error
  throw error

/-- Fails because of the next token. -/
def unexpected {α : Type} (expected : Expected) : Parse α := do
  let token ← next
  let found := if token.kind = .illegal then Found.input token.text else .token token.kind
  fail (.unexpected expected found token.span)

def expect (kind : Kind) : Parse Token := do
  if ← isNext kind then advance else unexpected (.token kind)

def expectMark (mark : Mark) : Parse Token := expect (.mark mark)

def acceptMark (mark : Mark) : Parse Bool := accept (.mark mark)

def isNextMark (mark : Mark) : Parse Bool := isNext (.mark mark)

/-- Runs a parser and turns its failure, which is recorded already, into `none`. -/
def attempt {α : Type} (parser : Parse α) : Parse (Option α) := fun state =>
  match parser state with
  | .ok value state => .ok (some value) state
  | .error _ state => .ok none state

def tooManyErrors : Parse Bool := do return maxParseErrors ≤ (← get).errors.size

/-- Whether a statement may end before the next token. -/
def atStmtEnd : Parse Bool := do
  let token ← next
  return token.newlineBefore || token.kind == .mark .semicolon
    || token.kind == .mark .rightBrace || token.kind == .endOfFile

def terminator : Parse Unit := do
  if ← acceptMark .semicolon then return
  if ← atStmtEnd then return
  unexpected .terminator

/-- Whether the next token ends a list of statements. -/
def atListEnd : Parse Bool := do
  let kind ← nextKind
  return kind == .endOfFile || kind == .mark .rightBrace

/-- Skips tokens up to a line break, behind a semicolon, or to the end of the list. -/
def skipStmt : Nat → Parse Unit
  | 0 => return
  | fuel + 1 => do
    if ← atListEnd then return
    if (← next).newlineBefore then return
    if ← acceptMark .semicolon then return
    discard advance
    skipStmt fuel

/-- Skips the rest of a broken statement, at least one token of it. -/
def recover (fuel : Nat) : Parse Unit := do
  unless ← atListEnd do
    discard advance
  skipStmt fuel

/-- Reads items with commas between them up to a closing mark, which is left to the caller. A
comma may stand behind the last item. The item parser extends what has been read so far. -/
def commaSeparated {α : Type} (close : Mark) (item : α → Parse α) : Nat → α → Parse α
  | 0, done => return done
  | fuel + 1, done => do
    if ← isNextMark close then return done
    if ← isNext .endOfFile then return done
    let done ← item done
    if ← acceptMark .comma then commaSeparated close item fuel done else return done

/-- The parsers of nested constructs, and how many levels remain below them. -/
structure Nested where
  fuel : Nat
  expr : Level → Parse Expr
  block : Parse Block
  cond : Parse Stmt

def ident : Parse Ident := do
  let token ← expect .ident
  return ⟨token.text, token.span⟩

/-! ## Expressions -/

/-- The value of a literal token. -/
def literalValue (token : Token) : Except BadLiteral Literal :=
  let chars := token.text.toList
  match token.kind with
  | .int => ((Numeral.readInt chars).map Literal.int).mapError (.int token.text)
  | .float =>
    ((Numeral.readFloat chars).map Literal.float).mapError (.float token.text)
  | .string => ((Literal.readString chars).map Literal.string).mapError .quoted
  | .rawString => .ok (.string (Literal.readRaw chars))
  | .char => ((Literal.readChar chars).map Literal.char).mapError .quoted
  | .keyword .true_ => .ok (.bool true)
  | .keyword .false_ => .ok (.bool false)
  | _ => .ok .undefined

def literal : Parse Expr := do
  let token ← advance
  match literalValue token with
  | .ok value => return .literal token.span value
  | .error cause => fail (.badLiteral cause token.span)

/-- The text of a double-quoted token. -/
def quotedText (token : Token) : Parse String :=
  match Literal.readString token.text.toList with
  | .ok text => return text
  | .error cause => fail (.badLiteral (.quoted cause) token.span)

def arrayExpr (nested : Nested) : Parse Expr := do
  let start := (← advance).span
  let items ← commaSeparated .rightBracket
    (fun (items : Array Expr) => return items.push (← nested.expr .lowest)) nested.fuel #[]
  let stop ← expectMark .rightBracket
  return .array (start.merge stop.span) items.toList

/-- A map key: an identifier or a string. -/
def mapKey : Parse Ident := do
  let token ← advance
  match token.kind with
  | .ident => return ⟨token.text, token.span⟩
  | .string => return ⟨← quotedText token, token.span⟩
  | .rawString => return ⟨Literal.readRaw token.text.toList, token.span⟩
  | kind => fail (.unexpected .mapKey (.token kind) token.span)

def mapEntry (nested : Nested) (entries : Array Entry) : Parse (Array Entry) := do
  let key ← mapKey
  discard (expectMark .colon)
  let value ← nested.expr .lowest
  return entries.push (.mk key.name key.span value)

def mapExpr (nested : Nested) : Parse Expr := do
  let start := (← expectMark .leftBrace).span
  let entries ← commaSeparated .rightBrace (mapEntry nested) nested.fuel #[]
  let stop ← expectMark .rightBrace
  return .map (start.merge stop.span) entries.toList

/-- Parameters up to the closing parenthesis; dots behind a parameter make it collect the
remaining arguments and end the list. -/
def params : Nat → Array Ident → Parse (Array Ident × Bool)
  | 0, done => return (done, false)
  | fuel + 1, done => do
    if ← isNextMark .rightParen then return (done, false)
    if ← isNext .endOfFile then return (done, false)
    let done := done.push (← ident)
    if ← acceptMark .ellipsis then return (done, true)
    if ← acceptMark .comma then params fuel done else return (done, false)

def funcExpr (nested : Nested) : Parse Expr := do
  let start := (← expect (.keyword .func)).span
  discard (expectMark .leftParen)
  let (names, variadic) ← params nested.fuel #[]
  discard (expectMark .rightParen)
  let body ← nested.block
  return .func (start.merge body.span) names.toList variadic body

/-- An expression in parentheses behind a keyword. -/
def wrappedExpr (nested : Nested) (build : Span → Expr → Expr) : Parse Expr := do
  let start := (← advance).span
  discard (expectMark .leftParen)
  let inner ← nested.expr .lowest
  let stop ← expectMark .rightParen
  return build (start.merge stop.span) inner

def importExpr : Parse Expr := do
  let start := (← advance).span
  discard (expectMark .leftParen)
  let name ← quotedText (← expect .string)
  let stop ← expectMark .rightParen
  return .importModule (start.merge stop.span) name

def primaryExpr (nested : Nested) : Parse Expr := do
  let kind ← nextKind
  match kind with
  | .ident =>
    let token ← advance
    return .name token.span token.text
  | .mark .leftParen =>
    let start := (← advance).span
    let inner ← nested.expr .lowest
    let stop ← expectMark .rightParen
    return .paren (start.merge stop.span) inner
  | .mark .leftBracket => arrayExpr nested
  | .mark .leftBrace => mapExpr nested
  | .keyword .func => funcExpr nested
  | .keyword .error => wrappedExpr nested .error
  | .keyword .immutable => wrappedExpr nested .immutable
  | .keyword .import_ => importExpr
  | _ => if kind.isLiteral then literal else unexpected .expression

def unaryExpr (nested : Nested) : Parse Expr := do
  match (← nextKind).unary? with
  | some op =>
    let start := (← advance).span
    let operand ← nested.expr .unary
    return .unary (start.merge operand.span) op operand
  | none => primaryExpr nested

/-- The arguments of a call as they are being read. -/
structure ArgList where
  positional : Array Expr := #[]
  spread : Bool := false
  named : Array NamedArg := #[]
  namedSpread : Option Expr := none

/-- Whether only named arguments may follow. -/
def ArgList.closed (args : ArgList) : Bool := args.spread || !args.named.isEmpty

def ArgList.build (args : ArgList) : Args :=
  .mk args.positional.toList args.spread args.named.toList args.namedSpread

def namedArg (nested : Nested) (args : ArgList) : Parse ArgList := do
  let name ← ident
  discard advance
  if args.namedSpread.isSome then fail (.misplaced .namedAfterNamedSpread name.span)
  let value ← nested.expr .lowest
  return { args with named := args.named.push (.mk name value) }

def positionalArg (nested : Nested) (args : ArgList) : Parse ArgList := do
  let value ← nested.expr .lowest
  let spread ← acceptMark .ellipsis
  if args.namedSpread.isSome then fail (.misplaced .argumentAfterNamedSpread value.span)
  if args.closed then
    if spread then return { args with namedSpread := some value }
    else fail (.misplaced .positionalAfterSpread value.span)
  else return { args with positional := args.positional.push value, spread }

def argument (nested : Nested) (args : ArgList) : Parse ArgList := do
  if (← isNext .ident) && (← isSecond (.mark .assign)) then namedArg nested args
  else positionalArg nested args

def callExpr (nested : Nested) (callee : Expr) : Parse Expr := do
  discard advance
  let args ← commaSeparated .rightParen (argument nested) nested.fuel {}
  let stop ← expectMark .rightParen
  return .call (callee.span.merge stop.span) callee args.build

def indexExpr (nested : Nested) (object : Expr) : Parse Expr := do
  discard (expectMark .leftBracket)
  let low ← if ← isNextMark .colon then pure none else some <$> nested.expr .lowest
  if ← acceptMark .colon then
    let high ← if ← isNextMark .rightBracket then pure none else some <$> nested.expr .lowest
    let stop ← expectMark .rightBracket
    return .slice (object.span.merge stop.span) object low high
  else
    let stop ← expectMark .rightBracket
    match low with
    | some index => return .index (object.span.merge stop.span) object index
    | none => fail (.misplaced .missingIndex stop.span)

/-- Continues an operand by what the next token announces; operands to the right of a binary
operator bind at `level` or tighter. -/
def continueExpr (nested : Nested) (left : Expr) (level : Level) : Continuation → Parse Expr
  | .question => do
    discard advance
    let yes ← nested.expr .lowest
    discard (expectMark .colon)
    let no ← nested.expr level
    return .cond (left.span.merge no.span) left yes no
  | .call => callExpr nested left
  | .index => indexExpr nested left
  | .select => do
    discard advance
    let field ← ident
    return .select (left.span.merge field.span) left field
  | .binary op => do
    discard advance
    let right ← nested.expr level
    return .binary (left.span.merge right.span) op left right

/-- Continues an operand as long as the next token binds at `least` or tighter and stands on the
same line. -/
def continueAll (nested : Nested) (least : Level) : Nat → Expr → Parse Expr
  | 0, left => return left
  | fuel + 1, left => do
    let token ← next
    match token.kind.continuation? with
    | none => return left
    | some continuation =>
      let level := continuation.level
      if level.toNat < least.toNat || token.newlineBefore then return left
      let left ← continueExpr nested left level.ofRightOperand continuation
      continueAll nested least fuel left

/-- An expression whose operators bind at `least` or tighter. -/
def exprAt (nested : Nested) (least : Level) : Parse Expr := do
  let left ← unaryExpr nested
  continueAll nested least nested.fuel left

/-! ## Statements -/

/-- An expression, an assignment, or a target with `++` or `--`. -/
def simpleStmt (nested : Nested) : Parse Stmt := do
  let target ← exprAt nested .lowest
  let token ← next
  match token.kind.assignment? with
  | some op =>
    discard advance
    let value ← exprAt nested .lowest
    return .assign (target.span.merge value.span) op target value
  | none =>
    if (token.kind == .mark .inc || token.kind == .mark .dec) && !token.newlineBefore then
      discard advance
      return .count (target.span.merge token.span) (token.kind == .mark .inc) target
    else return .expr target.span target

/-- Statements up to a closing brace or the end of the file. A statement in which an error was
found is left out. -/
def stmtList (stmt : Parse Stmt) (fuel : Nat) : Nat → Array Stmt → Parse (Array Stmt)
  | 0, done => return done
  | rounds + 1, done => do
    if ← atListEnd then return done
    if ← tooManyErrors then return done
    match ← attempt (do let read ← stmt; terminator; return read) with
    | some read => stmtList stmt fuel rounds (done.push read)
    | none =>
      recover fuel
      stmtList stmt fuel rounds done

def blockOf (stmt : Parse Stmt) (fuel : Nat) : Parse Block := do
  let start ← expectMark .leftBrace
  let stmts ← stmtList stmt fuel fuel #[]
  let stop ← expectMark .rightBrace
  return .mk (start.span.merge stop.span) stmts.toList

/-- The parts of a conditional statement behind its test. -/
def condRest (nested : Nested) (start : Span) (init : Option Stmt) (test : Expr) : Parse Stmt := do
  let yes ← nested.block
  if ← accept (.keyword .else_) then
    let no ← if ← isNext (.keyword .if_) then nested.cond else Stmt.block <$> nested.block
    return .cond (start.merge no.span) init test yes (some no)
  else return .cond (start.merge yes.span) init test yes none

/-- A conditional statement: an optional simple statement, a test, a block, and perhaps `else`
with a block or another conditional statement. -/
def condStmt (nested : Nested) : Parse Stmt := do
  let start := (← expect (.keyword .if_)).span
  let first ← simpleStmt nested
  if ← acceptMark .semicolon then
    let test ← exprAt nested .lowest
    condRest nested start (some first) test
  else match first with
    | .expr _ test => condRest nested start none test
    | other => fail (.misplaced .missingCondition other.span)

/-- The parts of an iteration behind its variables. -/
def forEachRest (nested : Nested) (start : Span) (key value : Ident) : Parse Stmt := do
  discard (expect (.keyword .in_))
  let iterable ← exprAt nested .lowest
  let body ← nested.block
  return .forEach (start.merge body.span) key value iterable body

def forEachStmt (nested : Nested) (start : Span) : Parse Stmt := do
  let first ← ident
  if ← acceptMark .comma then
    let second ← ident
    forEachRest nested start first second
  else forEachRest nested start ⟨"_", first.span⟩ first

/-- The parts of a loop header behind its first statement. -/
def loopRest (nested : Nested) (start : Span) (init : Option Stmt) : Parse Stmt := do
  discard (expectMark .semicolon)
  let test ← if ← isNextMark .semicolon then pure none else some <$> exprAt nested .lowest
  discard (expectMark .semicolon)
  let post ← if ← isNextMark .leftBrace then pure none else some <$> simpleStmt nested
  let body ← nested.block
  return .loop (start.merge body.span) init test post body

def loopStmt (nested : Nested) : Parse Stmt := do
  let start := (← expect (.keyword .for_)).span
  if ← isNextMark .leftBrace then
    let body ← nested.block
    return .loop (start.merge body.span) none none none body
  if (← isNext .ident) && ((← isSecond (.mark .comma)) || (← isSecond (.keyword .in_))) then
    forEachStmt nested start
  else if ← isNextMark .semicolon then loopRest nested start none
  else
    let first ← simpleStmt nested
    if ← isNextMark .leftBrace then
      match first with
      | .expr _ test =>
        let body ← nested.block
        return .loop (start.merge body.span) none (some test) none body
      | other => fail (.misplaced .loopCondition other.span)
    else loopRest nested start (some first)

def stmtOf (nested : Nested) : Parse Stmt := do
  let token ← next
  let start := token.span
  match token.kind with
  | .mark .semicolon => return .empty start
  | .keyword .if_ => condStmt nested
  | .keyword .for_ => loopStmt nested
  | .mark .leftBrace => .block <$> nested.block
  | .keyword .return_ =>
    discard advance
    if ← atStmtEnd then return .result start none
    let value ← exprAt nested .lowest
    return .result (start.merge value.span) (some value)
  | .keyword .export_ =>
    discard advance
    let value ← exprAt nested .lowest
    return .publish (start.merge value.span) value
  | .keyword .break_ =>
    discard advance
    return .leave start
  | .keyword .continue_ =>
    discard advance
    return .next start
  | _ => simpleStmt nested

/-- The parsers with a number of levels below them. -/
def nested : Nat → Nested
  | 0 =>
    { fuel := 0
      expr := fun _ => unexpected .expression
      block := unexpected (.token (.mark .leftBrace))
      cond := unexpected (.token (.keyword .if_)) }
  | levels + 1 =>
    { fuel := levels + 1
      expr := fun least state => exprAt (nested levels) least state
      block := fun state => blockOf (fun state => stmtOf (nested levels) state) (levels + 1) state
      cond := fun state => condStmt (nested levels) state }

/-- Statements up to the end of the file; a closing brace that closes nothing is an error. -/
def scriptStmts (levels : Nat) : Nat → Array Stmt → Parse (Array Stmt)
  | 0, done => return done
  | rounds + 1, done => do
    let done ← stmtList (stmtOf (nested levels)) levels levels done
    if (← isNextMark .rightBrace) && !(← tooManyErrors) then
      let stray ← advance
      record (.misplaced .closingBrace stray.span)
      scriptStmts levels rounds done
    else return done

def script (levels : Nat) : Parse Script := do
  let start := (← next).span
  let stmts ← scriptStmts levels levels #[]
  let stop := (← next).span
  return { stmts := stmts.toList, span := start.merge stop }

end Parse

namespace ParseState

def ofText (text : String) (file : UInt16) : ParseState := { stream := .ofText text file }

/-- As many levels as there are tokens, and one more. -/
def levels (state : ParseState) : Nat := state.stream.rest.length + 2

/-- Reads one expression. -/
def readExpr (state : ParseState) : EStateM.Result ParseError ParseState Expr :=
  Parse.exprAt (Parse.nested state.levels) .lowest state

/-- Reads a script up to the end of the tokens, or reports the errors in the order in which they
were found. -/
def readScript (state : ParseState) : Except (List ParseError) Script :=
  match Parse.script state.levels state with
  | .ok script state => if state.errors.isEmpty then .ok script else .error state.errors.toList
  | .error _ state => .error state.errors.toList

end ParseState

/-- Reads the text of a script. -/
def Script.parse (text : String) (file : UInt16) : Except (List ParseError) Script :=
  (ParseState.ofText text file).readScript

end Skiff
