import Skiff.Proofs.Tree.Operand

/-!
# Reading printed statements

The tokens of a printed proper statement and the semicolon behind it are read as the same statement.
The first token tells what kind of statement it is, and the header of a loop starts neither with a
brace nor like an iteration unless it is one.
-/

namespace Skiff

open List Stmt ParseState

namespace Parse

theorem continuation?_of_assignment? {mark : Mark} {op : AssignOp}
    (assigns : mark.assignment? = some op) : mark.continuation? = none := by
  cases mark <;> cases assigns <;> rfl

section statements
variable {nested : Nested} {count : Nat} {follows : Token → Prop}

theorem exprAt_lowest_takes (rereads : nested.Rereads) {expr : Expr} (proper : expr.Proper)
    (le : count ≤ nested.fuel + 1) :
    Takes count (·.kind.continuation? = none) (exprAt nested .lowest) expr.pieces
      (·.bare = expr.bare) :=
  (exprAt_takes rereads proper (Nat.zero_le _) le).before fun _ => Token.ends_of_none

/-- What stands behind a simple statement: a semicolon or the brace of a block. -/
def closesSimple (token : Token) : Prop :=
  token.kind = .mark .semicolon ∨ token.kind = .mark .leftBrace

theorem closesSimple.ends {next : Token} (closes : closesSimple next) :
    next.kind.continuation? = none := by
  rcases closes with kind | kind <;> rw [kind] <;> rfl

variable {stmt : Stmt} {body : Block} {span : Span}

theorem simpleStmt_takes (rereads : nested.Rereads) (simple : stmt.Simple)
    (le : count ≤ nested.fuel + 1) :
    Takes count closesSimple (simpleStmt nested) stmt.pieces (·.bare = stmt.bare) := by
  cases simple with
  | expr proper =>
    rw [pieces]
    refine ((exprAt_lowest_takes rereads proper le).before fun _ => closesSimple.ends).last
      fun value' same => ?_
    refine .lookAhead (.nil fun _ => id) fun token closes => ?_
    have none : token.kind.assignment? = none := by
      rcases closes with kind | kind <;> rw [kind] <;> rfl
    rw [none]
    dsimp only
    rw [if_neg (by rcases closes with kind | kind <;> simp [kind])]
    exact .pure (by simp [bare, same])
  | @assign span op mark target value spelledOp targetProper valueProper =>
    have assigns := AssignOp.mark?_eq_some.mp spelledOp
    rw [pieces, spelledOp, append_assoc]
    refine (exprAt_lowest_takes rereads targetProper le).bind
      (.stops rfl (continuation?_of_assignment? assigns)) fun target' same => ?_
    refine .lookAhead (.known rfl fun _ => id) fun token kind => ?_
    rw [kind, show (Kind.mark mark).assignment? = some op from assigns]
    refine .skip (((exprAt_lowest_takes rereads valueProper (by omega)).before
      fun _ => closesSimple.ends).last fun value' sameValue => ?_)
    exact .pure (by simp [bare, same, sameValue])
  | @count span up target targetProper =>
    rw [pieces]
    refine (exprAt_lowest_takes rereads targetProper le).bind (.stops rfl (by cases up <;> rfl))
      fun target' same => ?_
    refine .lookAhead (.cons fun _ => id) fun token spells => ?_
    obtain ⟨inline, kind, _⟩ := spells
    rw [show token.kind.assignment? = none by rw [kind]; cases up <;> rfl]
    dsimp only
    rw [if_pos (by cases up <;> simp [kind, inline])]
    exact .skip (.pure (by cases up <;> simp [bare, same, kind]))

/-- A simple statement starts with an expression, behind which comes no comma and no `in`. -/
theorem simple_starts (simple : stmt.Simple) :
    ∃ expr others, stmt.pieces = Expr.pieces expr ++ others ∧ expr.braced = stmt.braced ∧
      First others closesSimple fun token => token.kind ≠ .mark .comma ∧
        token.kind ≠ .keyword .in_ := by
  cases simple with
  | @expr span value proper =>
    rw [pieces]
    refine ⟨value, [], (append_nil _).symm, rfl, .nil fun _ closes => ?_⟩
    rcases closes with kind | kind <;> simp [kind]
  | @assign span op mark target value spelledOp targetProper valueProper =>
    have assigns := AssignOp.mark?_eq_some.mp spelledOp
    rw [pieces, spelledOp, append_assoc]
    refine ⟨target, _, rfl, rfl, .known rfl fun _ kind => ?_⟩
    rw [kind]
    refine ⟨?_, by simp⟩
    rintro ⟨⟩
    cases assigns
  | @count span up target targetProper =>
    rw [pieces]
    refine ⟨target, _, rfl, rfl, .known rfl fun _ kind => ?_⟩
    rw [kind]
    cases up <;> simp

theorem simple_first (simple : stmt.Simple) : First stmt.pieces follows fun token =>
    token.kind.startsExpr = true ∧ (token.kind == .mark .leftBrace) = stmt.braced := by
  obtain ⟨expr, others, printed, braced, _⟩ := simple_starts simple
  rw [printed, ← braced]
  exact (starts_pieces expr).first.append

variable {tokens : List Token} {parser : Parse Stmt} {bound : Nat} {test : Expr} {yes : Block}
  {no init post : Option Stmt}

theorem simple_second (simple : stmt.Simple) {after : List Token}
    (spelled : Spelled stmt.pieces tokens) (closes : Begins closesSimple after) :
    ((ofTokens (tokens ++ after)).stream.next.kind == .ident &&
      ((ofTokens (tokens ++ after)).stream.second.kind == .mark .comma ||
        (ofTokens (tokens ++ after)).stream.second.kind == .keyword .in_)) = false := by
  obtain ⟨expr, others, printed, _, next⟩ := simple_starts simple
  rw [printed] at spelled
  obtain ⟨front, back, rfl, first, second⟩ := spelled.split
  have begins := next back after second closes
  rw [Bool.and_or_distrib_left, append_assoc,
    (starts_pieces expr).second first rfl (begins.imp fun _ => And.left),
    (starts_pieces expr).second first rfl (begins.imp fun _ => And.right)]
  rfl

/-! ## Lists of statements -/

theorem terminator_ofTokens {token : Token} (more : tokens ≠ [])
    (kind : token.kind = .mark .semicolon) :
    terminator (.ofTokens (token :: tokens)) = .ok () (.ofTokens tokens) :=
  bind_ok (accept_ofTokens more kind)

theorem block_first : First body.pieces follows (·.kind = .mark .leftBrace) := by
  obtain ⟨span, stmts⟩ := body
  rw [Block.pieces]
  exact .known rfl fun _ => id

/-- A statement starts with a semicolon, a brace, a keyword of its own or an expression. -/
theorem stmt_first (proper : stmt.Proper) :
    First (stmt.pieces ++ [.mark .semicolon]) follows fun token =>
    token.kind ≠ .endOfFile ∧ token.kind ≠ .mark .rightBrace := by
  cases proper with
  | simple simple braced =>
    exact (simple_first simple).append.imp fun _ starts =>
      ⟨startsExpr_ne starts.1 rfl, startsExpr_ne starts.1 rfl⟩
  | block =>
    rw [pieces]
    exact block_first.append.imp fun _ kind => by simp [kind]
  | empty | cond | loop | forEach | result | publish | leave | next =>
    rw [pieces]
    exact .known rfl fun _ kind => by simp [kind]

/-- Statements are read one by one up to the end of the list. -/
theorem stmtList_takes {fuel : Nat} {stmts : List Stmt}
    (step : ∀ stmt ∈ stmts, Takes bound (·.kind = .mark .semicolon) parser stmt.pieces
    (·.bare = stmt.bare))
    (proper : ∀ stmt ∈ stmts, stmt.Proper) {rounds : Nat} (enough : count ≤ rounds)
      (within : count ≤ bound)
    (done : Array Stmt) :
    Takes count (fun token => token.kind = .endOfFile ∨ token.kind = .mark .rightBrace)
      (stmtList parser fuel rounds done) (endEach (stmts.map pieces)) fun read =>
      read.toList.map bare = done.toList.map bare ++ stmts.map bare := by
  induction rounds generalizing stmts count done with
  | zero => exact .vacuous enough
  | succ rounds ih =>
    unfold stmtList
    cases stmts with
    | nil =>
      refine .peek (fun token => token.kind == .endOfFile || token.kind == .mark .rightBrace)
        atListEnd_eq (.nil fun _ => id) fun token ends => ?_
      rw [if_pos (by rcases ends with kind | kind <;> simp [kind])]
      exact .pure (by simp)
    | cons stmt stmts =>
      rw [endEach, map_cons, flatMap_cons]
      refine .peek (fun token => token.kind == .endOfFile || token.kind == .mark .rightBrace)
        atListEnd_eq (stmt_first (proper stmt (by simp))).append fun token ends => ?_
      rw [if_neg (by simp [ends])]
      refine .look _ tooManyErrors_eq fun _ _ _ _ => ?_
      rw [if_neg (by simp [ofTokens, maxParseErrors])]
      have one : Takes count (fun _ => True) (do let read ← parser; terminator; return read)
          (stmt.pieces ++ [.mark .semicolon]) (·.bare = stmt.bare) := by
        refine ((step stmt (by simp)).fewer within).bind (.known rfl fun _ => id) fun read same =>
          ?_
        exact .token (fun _ _ more spells => terminator_ofTokens more spells.2.1)
          fun _ _ => .pure same
      refine one.attempt.bind .any ?_
      rintro _ ⟨read, rfl, same⟩
      refine (ih (fun stmt member => step stmt (.tail _ member))
        (fun stmt member => proper stmt (.tail _ member)) ?_ (by omega) _).imp
          fun read given => ?_
      · simp only [length_append, length_singleton]
        omega
      · simp [given, same]

theorem blockOf_takes
    (step : ∀ stmt ∈ body.stmts, Takes (bound - 1) (·.kind = .mark .semicolon) parser stmt.pieces
    (·.bare = stmt.bare)) (proper : body.Proper) (le : count ≤ bound) :
    Takes count follows (blockOf parser bound) body.pieces (·.bare = body.bare) := by
  obtain ⟨span, stmts⟩ := body
  rw [Block.pieces, allPieces_eq]
  refine .expect rfl fun _ _ => ?_
  refine (stmtList_takes step proper (by omega) (by omega) #[]).bind (.known rfl fun _ => .inr)
    fun stmts' same => ?_
  exact .expect rfl fun _ _ => .pure (by simpa [Block.bare, Block.stmts] using same)

/-! ## Statements with blocks -/

theorem eq_expr_of_bare {value : Expr} (same : stmt.bare = .expr {} value.bare) :
    ∃ span value', stmt = .expr span value' ∧ value'.bare = value.bare := by
  cases stmt with
  | expr span value' =>
    rw [bare] at same
    exact ⟨span, value', rfl, by injection same⟩
  | _ => rw [bare] at same; cases same

section
variable (rereads : nested.Rereads)
include rereads

theorem condRest_takes (start : Span) {test' : Expr} (init init' : Option Stmt)
    (sameInit : init'.map bare = init.map bare) (sameTest : test'.bare = test.bare)
    (yesProper : yes.Proper) (noProper : ∀ stmt ∈ no, stmt.Proper)
    (alternative : ∀ stmt ∈ no, stmt.isAlternative = true) (le : count ≤ nested.fuel) :
    Takes count (·.kind ≠ .keyword .else_) (condRest nested start init' test')
      (yes.pieces ++ elsePieces no) (·.bare = bare (.cond {} init test yes no)) := by
  refine (rereads.block yesProper le).bind .any fun yes' sameYes => ?_
  cases no with
  | none =>
    rw [elsePieces]
    exact .refuse (.nil fun _ => id) (.pure (by simp [bare, sameInit, sameTest, sameYes]))
  | some stmt =>
    rw [elsePieces]
    refine .accept rfl ?_
    have isProper := noProper stmt rfl
    cases stmt with
    | block body =>
      have bodyProper : body.Proper := by
        cases isProper with
        | block proper => exact proper
        | simple simple => cases simple
      rw [pieces]
      refine .isOther (block_first.imp fun _ kind => by simp [kind]) ?_
      refine ((rereads.block bodyProper (by omega)).map fun body' same => ?_).last
        fun no' (sameNo : no'.bare = bare (.block body)) => ?_
      · simp [bare, same]
      · exact .pure (by simp [bare, sameInit, sameTest, sameYes, sameNo])
    | cond span' init₂ test₂ yes₂ no₂ =>
      refine .isNext (by rw [pieces]; exact .known rfl fun _ => id) ?_
      refine (rereads.cond isProper (by omega)).last fun no' sameNo => ?_
      exact .pure (by simp [bare, sameInit, sameTest, sameYes, sameNo])
    | _ => cases alternative _ rfl

theorem condStmt_takes (proper : Proper (.cond span init test yes no))
    (le : count ≤ nested.fuel + 1) :
    Takes count (·.kind ≠ .keyword .else_) (condStmt nested) (pieces (.cond span init test yes no))
      (·.bare = bare (.cond span init test yes no)) := by
  cases proper with
  | simple simple => cases simple
  | cond initSimple testProper yesProper noProper alternative =>
    simp only [pieces, append_assoc, cons_append]
    refine .expect rfl fun _ _ => ?_
    cases init with
    | none =>
      have first : Takes (count - 1) closesSimple (simpleStmt nested) test.pieces
          (·.bare = .expr {} test.bare) := by
        have read := @simpleStmt_takes _ (count - 1) (.expr {} test) rereads
            (.expr testProper) (by omega)
        rwa [pieces, bare] at read
      rw [initPieces]
      refine first.bind (block_first.append.imp fun _ => .inr) fun first' same => ?_
      refine .refuse (block_first.append.imp fun _ kind => by simp [kind]) ?_
      obtain ⟨span', test', rfl, sameTest⟩ := eq_expr_of_bare same
      refine (condRest_takes rereads _ none none rfl sameTest yesProper noProper alternative
        (by omega)).imp fun stmt' same => ?_
      simp [same, bare]
    | some init =>
      rw [initPieces, append_assoc]
      refine (simpleStmt_takes rereads (initSimple init rfl) (by omega)).bind
        (.known rfl fun _ => .inl) fun first' same => .accept rfl ?_
      refine (exprAt_lowest_takes rereads testProper (by omega)).bind
        (block_first.append.imp fun _ kind => kind ▸ rfl) fun test' sameTest => ?_
      refine (condRest_takes rereads _ (some init) (some first')
        (by simp [same]) sameTest yesProper noProper
        alternative (by omega)).imp fun stmt' same => ?_
      simp [same, bare]

theorem forEachStmt_takes {key value : Ident} {iterable : Expr} (start : Span)
    (iterableProper : iterable.Proper) (bodyProper : body.Proper) (le : count ≤ nested.fuel) :
    Takes count follows (forEachStmt nested start)
      (.ident key.name :: .mark .comma :: .ident value.name ::
      .keyword .in_ :: (iterable.pieces ++ body.pieces))
      (·.bare = bare (.forEach span key value iterable body)) := by
  refine .ident fun key' sameKey => .accept rfl (.ident fun value' sameValue => .skipExpect rfl ?_)
  refine (exprAt_lowest_takes rereads iterableProper (by omega)).bind
    (block_first.imp fun _ kind => kind ▸ rfl) fun iterable' sameIterable => ?_
  refine (rereads.block bodyProper (by omega)).last fun body' sameBody => ?_
  exact .pure (by simp [bare, Ident.bare, sameKey, sameValue, sameIterable, sameBody])

theorem loopRest_takes {test : Option Expr} (start : Span) (init init' : Option Stmt)
    (sameInit : init'.map bare = init.map bare) (testProper : ∀ value ∈ test, value.Proper)
    (postSimple : ∀ stmt ∈ post, stmt.Simple) (postBraced : ∀ stmt ∈ post, stmt.braced = false)
    (bodyProper : body.Proper) (le : count ≤ nested.fuel) :
    Takes count follows (loopRest nested start init') (.mark .semicolon :: (Expr.optPieces test ++
      .mark .semicolon :: (optPieces post ++ body.pieces)))
      (·.bare = bare (.loop span init test post body)) := by
  refine .skipExpect rfl ?_
  refine optional_takes
    (fun value member => exprAt_lowest_takes rereads (testProper value member) (by omega))
    rfl rfl fun test' sameTest => .skipExpect rfl ?_
  refine .optional bare post ?_ ?_ (block_first.imp fun token kind =>
    (.inr kind : closesSimple token)) fun post' samePost => ?_
  · rintro rfl
    exact ⟨by rw [optPieces], block_first⟩
  · rintro stmt rfl
    rw [optPieces]
    have simple := postSimple stmt rfl
    refine ⟨(simple_first simple).imp fun _ first => ?_, simpleStmt_takes rereads simple (by omega)⟩
    exact beq_eq_false_iff_ne.mp (first.2.trans (postBraced stmt rfl))
  refine (rereads.block bodyProper (by omega)).last fun body' sameBody => ?_
  exact .pure (by simp [bare, sameInit, sameTest, samePost, sameBody])

theorem loopStmt_takes {test : Option Expr} (proper : Proper (.loop span init test post body))
    (le : count ≤ nested.fuel + 1) :
    Takes count follows (loopStmt nested) (pieces (.loop span init test post body))
      (·.bare = bare (.loop span init test post body)) := by
  cases proper with
  | simple simple => cases simple
  | loop initSimple initBraced testProper postSimple postBraced bodyProper =>
    simp only [pieces, append_assoc, cons_append]
    refine .expect rfl fun word _ => ?_
    have finish {count : Nat} (le : count ≤ nested.fuel) (init' : Option Stmt)
        (same : init'.map bare = init.map bare) :
        Takes count follows (loopRest nested word.span init')
          (.mark .semicolon :: (Expr.optPieces test ++
          .mark .semicolon :: (optPieces post ++ body.pieces)))
          (·.bare = bare (.loop span init test post body)) :=
      loopRest_takes rereads word.span init init' same testProper postSimple postBraced
        bodyProper le
    cases init with
    | none =>
      rw [optPieces]
      refine .isOther (.known rfl fun _ kind => by simp [kind]) ?_
      refine .isOther (.known rfl fun _ kind => by simp [kind]) ?_
      refine .look _ (isSecond_eq _) fun _ _ _ _ => .look _ (isSecond_eq _) fun _ _ _ _ => ?_
      exact .isNext (.known rfl fun _ => id) (finish (by omega) none rfl)
    | some init =>
      rw [optPieces]
      have simple := initSimple init rfl
      refine .isOther ((simple_first simple).append.imp fun _ first => ?_) ?_
      · exact beq_eq_false_iff_ne.mp (first.2.trans (initBraced init rfl))
      intro tokens after spelled enough follow
      refine .step (isNext_eq _ _) (.step (isSecond_eq _ _) (.step (isSecond_eq _ _) ?_))
      rw [if_neg]
      swap
      · obtain ⟨front, back, rfl, first, second⟩ := spelled.split
        obtain ⟨semicolon, others, rfl, ⟨_, kind, _⟩, _⟩ := second.uncons
        rw [append_assoc, cons_append,
          simple_second simple first ⟨semicolon, others ++ after, rfl, .inl kind⟩]
        exact Bool.false_ne_true
      refine Takes.apply ?_ spelled enough follow
      refine .isOther ((simple_first simple).append.imp fun _ first => startsExpr_ne first.1 rfl) ?_
      refine (simpleStmt_takes rereads simple (by omega)).bind (.known rfl fun _ => .inl)
        fun first' same => ?_
      refine .isOther (.known rfl fun _ kind => by simp [kind]) ?_
      exact finish (by omega) (some first') (by simp [same])

end

/-! ## All statements -/

/-- A statement may end before a token. -/
def endsStmt (token : Token) : Bool :=
  token.newlineBefore || token.kind == .mark .semicolon || token.kind == .mark .rightBrace
    || token.kind == .endOfFile

theorem stmtOf_simple {pieces : List Piece} {holds : Stmt → Prop}
    (first : First pieces follows fun token =>
      token.kind.startsExpr = true ∧ (token.kind == .mark .leftBrace) = false)
    (read : Takes count follows (simpleStmt nested) pieces holds) :
    Takes count follows (stmtOf nested) pieces holds := by
  refine .lookAhead first fun token starts => ?_
  split
  case h_4 isBrace =>
    rw [isBrace] at starts
    cases starts.2
  case h_9 => exact read
  all_goals
    next isWord =>
      rw [isWord] at starts
      cases starts.1

theorem stmtOf_takes (rereads : nested.Rereads) (proper : stmt.Proper) (le : count ≤ nested.fuel) :
    Takes count (·.kind = .mark .semicolon) (stmtOf nested) stmt.pieces (·.bare = stmt.bare) := by
  have value {expr : Expr} {count : Nat} (exprProper : expr.Proper) (le : count ≤ nested.fuel) :
      Takes count (·.kind = .mark .semicolon) (exprAt nested .lowest) expr.pieces
        (·.bare = expr.bare) :=
    (exprAt_lowest_takes rereads exprProper (by omega)).before fun _ kind => kind ▸ rfl
  have isProper := proper
  cases proper with
  | simple simple braced =>
    refine stmtOf_simple (braced ▸ simple_first simple) ?_
    exact (simpleStmt_takes rereads simple (by omega)).before fun _ => .inl
  | @block body bodyProper =>
    rw [pieces]
    refine .lookAhead block_first fun token kind => ?_
    rw [kind]
    exact (rereads.block bodyProper le).map fun body' same => by simp [bare, same]
  | cond =>
    refine .lookAhead (by rw [pieces]; exact .known rfl fun _ => id) fun token kind => ?_
    rw [kind]
    exact (condStmt_takes rereads isProper (by omega)).before fun _ kind => by simp [kind]
  | loop =>
    refine .lookAhead (by rw [pieces]; exact .known rfl fun _ => id) fun token kind => ?_
    rw [kind]
    exact loopStmt_takes rereads isProper (by omega)
  | forEach iterableProper bodyProper =>
    rw [pieces]
    refine .lookAhead (.known rfl fun _ => id) fun token kind => ?_
    rw [kind]
    refine .expect rfl fun word _ => .isOther (.known rfl fun _ kind => by simp [kind]) ?_
    intro tokens after spelled enough follow
    refine .step (isNext_eq _ _) (.step (isSecond_eq _ _) (.step (isSecond_eq _ _) ?_))
    rw [if_pos]
    swap
    · obtain ⟨key, _, rfl, ⟨_, isKey, _⟩, spelled⟩ := spelled.uncons
      obtain ⟨comma, _, rfl, ⟨_, isComma, _⟩, _⟩ := spelled.uncons
      simp [isKey, ofTokens, Stream.second, isComma]
    exact (forEachStmt_takes rereads word.span iterableProper bodyProper (by omega)).apply spelled
      enough follow
  | @result span value valueProper =>
    rw [pieces]
    refine .lookAhead (.known rfl fun _ => id) fun token kind => ?_
    rw [kind]
    refine .skip ?_
    cases value with
    | none =>
      rw [Expr.optPieces]
      refine .peek endsStmt atStmtEnd_eq (.nil fun _ => id) fun _ kind => ?_
      rw [if_pos (by simp [endsStmt, kind])]
      exact .pure (by simp [bare])
    | some result =>
      rw [Expr.optPieces]
      have starts := starts_pieces result
      refine .peek endsStmt atStmtEnd_eq (starts.first.inline starts.ne_nil) fun token first => ?_
      obtain ⟨⟨first, _⟩, inline⟩ := first
      have other {kind : Kind} (none : kind.startsExpr = false) : (token.kind == kind) = false :=
        beq_eq_false_iff_ne.2 (startsExpr_ne first none)
      rw [endsStmt, inline, other rfl, other rfl, other rfl]
      exact (value (valueProper result rfl) (by omega)).last fun result' same =>
        .pure (by simp [bare, same])
  | publish valueProper =>
    rw [pieces]
    refine .lookAhead (.known rfl fun _ => id) fun token kind => ?_
    rw [kind]
    exact .skip ((value valueProper (by omega)).last fun value' same =>
      .pure (by simp [bare, same]))
  | leave | next =>
    rw [pieces]
    refine .lookAhead (.known rfl fun _ => id) fun token kind => ?_
    rw [kind]
    exact .skip (.pure (by simp [bare]))
  | empty =>
    rw [pieces]
    refine .lookAhead (.nil fun _ => id) fun token kind => ?_
    rw [kind]
    exact .pure (by simp [bare])

end statements

/-- The parsers of every number of levels read printed trees. -/
theorem nested_rereads (levels : Nat) : (nested levels).Rereads := by
  induction levels with
  | zero => exact ⟨fun _ _ => .vacuous, fun _ => .vacuous, fun _ => .vacuous⟩
  | succ levels ih =>
    have fuel : levels ≤ (nested levels).fuel := by cases levels <;> exact Nat.le_refl _
    have more {count : Nat} (le : count ≤ levels + 1) : count ≤ (nested levels).fuel + 1 :=
      Nat.le_trans le (Nat.succ_le_succ fuel)
    exact ⟨fun proper level le => exprAt_takes ih proper level (more le),
      fun proper le => blockOf_takes (fun stmt member => stmtOf_takes ih (proper stmt member) fuel)
        proper le, fun proper le => condStmt_takes ih proper (more le)⟩

end Parse

end Skiff
