import Skiff.Proofs.Tree.Primary

/-!
# Reading operands and what continues them

An expression is read from its first operand on, and every operator of its left side continues what
has been read before. So the tokens of a printed proper expression are read as the same expression,
whatever comes behind them, as long as it does not continue the expression.
-/

namespace Skiff

open List Expr

namespace Parse

section expressions
variable {nested : Nested} {count : Nat} {follows : Token → Prop} {span : Span}

/-! ## Arguments -/

/-- One argument of a call. -/
inductive Argument where
  | positional (value : Expr) (spread : Bool)
  | named (arg : NamedArg)
  | namedSpread (value : Expr)

variable {spread : Bool} {after tokens : List Token} {values : List Expr} {arg : Argument}
  {last : ArgList} {α : Type} {final : α → Prop} {continuation : Continuation}

namespace Argument

def pieces : Argument → List Piece
  | positional value spread => value.pieces ++ dots spread
  | named arg => arg.pieces
  | namedSpread value => value.pieces ++ dots true

def bare : Argument → Argument
  | positional value spread => positional value.bare spread
  | named arg => named arg.bare
  | namedSpread value => namedSpread value.bare

def value : Argument → Expr
  | positional value _ => value
  | named arg => arg.value
  | namedSpread value => value

/-- Positional arguments of which the last one may be spread. -/
def ofPositional (spread : Bool) : List Expr → List Argument
  | [] => []
  | [value] => [positional value spread]
  | value :: next :: values => positional value false :: ofPositional spread (next :: values)

theorem map_pieces_ofPositional (spread : Bool) (values : List Expr) :
    (ofPositional spread values).map pieces = spreadLast spread (values.map Expr.pieces) := by
  induction values with
  | nil => rfl
  | cons value values ih =>
    cases values with
    | nil => rfl
    | cons next values =>
      simp only [ofPositional, map_cons, spreadLast] at ih ⊢
      rw [ih]
      simp [pieces, dots]

theorem map_bare_ofPositional (spread : Bool) (values : List Expr) :
    (ofPositional spread values).map bare = ofPositional spread (values.map Expr.bare) := by
  induction values with
  | nil => rfl
  | cons value values ih =>
    cases values with
    | nil => rfl
    | cons next values =>
      simp only [ofPositional, map_cons] at ih ⊢
      rw [ih]
      rfl

theorem value_of_mem_ofPositional (member : arg ∈ ofPositional spread values) :
    arg.value ∈ values := by
  induction values with
  | nil => cases member
  | cons value values ih =>
    cases values with
    | nil =>
      obtain rfl := mem_singleton.mp member
      exact .head _
    | cons next values =>
      rcases mem_cons.mp member with rfl | member
      · exact .head _
      · exact .tail _ (ih member)

/-- All arguments of a call in order. -/
def all (positional : List Expr) (spread : Bool) (named : List NamedArg)
    (namedSpread : Option Expr) : List Argument :=
  ofPositional spread positional ++ named.map .named ++ namedSpread.toList.map .namedSpread

section all
variable {positional : List Expr} {spread : Bool} {named : List NamedArg}
  {namedSpread : Option Expr}

theorem pieces_all : Args.pieces (.mk positional spread named namedSpread) =
    commaList ((all positional spread named namedSpread).map pieces) := by
  have last : spreadPieces namedSpread = namedSpread.toList.map fun value =>
      value.pieces ++ dots true := by
    cases namedSpread <;> rw [spreadPieces] <;> rfl
  rw [Args.pieces, allPieces_eq, NamedArg.allPieces_eq, last]
  simp [all, map_pieces_ofPositional, Function.comp_def, pieces]

theorem map_bare_all : (all positional spread named namedSpread).map bare =
    all (positional.map Expr.bare) spread (named.map NamedArg.bare)
      (namedSpread.map Expr.bare) := by
  cases namedSpread <;> simp [all, map_bare_ofPositional, Function.comp_def, bare]

theorem value_proper_all (properPositional : ∀ arg ∈ positional, arg.Proper)
    (properNamed : ∀ arg ∈ named, arg.value.Proper)
    (properSpread : ∀ arg ∈ namedSpread, arg.Proper) :
    ∀ arg ∈ all positional spread named namedSpread, arg.value.Proper := by
  intro arg member
  simp only [all, mem_append, mem_map, Option.mem_toList] at member
  rcases member with (member | ⟨arg, member, rfl⟩) | ⟨value, member, rfl⟩
  · exact properPositional _ (value_of_mem_ofPositional member)
  · exact properNamed arg member
  · exact properSpread value member

end all

end Argument

variable {positional : List Expr} {named : List NamedArg} {namedSpread : Option Expr}
  {pieces : List Piece}

namespace ArgList

def bare (args : ArgList) : ArgList where
  positional := args.positional.map Expr.bare
  spread := args.spread
  named := args.named.map NamedArg.bare
  namedSpread := args.namedSpread.map Expr.bare

theorem closed_bare (args : ArgList) : args.bare.closed = args.closed := by
  simp [closed, bare, Array.isEmpty]

theorem bare_build (args : ArgList) : args.build.bare = args.bare.build := by
  simp [build, Args.bare, bare]

/-- An argument may stand behind those read so far. -/
def Admits (args : ArgList) : Argument → Prop
  | .positional .. => args.namedSpread = none ∧ args.closed = false
  | .named _ => args.namedSpread = none
  | .namedSpread _ => args.namedSpread = none ∧ args.closed = true

def add (args : ArgList) : Argument → ArgList
  | .positional value spread => { args with positional := args.positional.push value, spread }
  | .named arg => { args with named := args.named.push arg }
  | .namedSpread value => { args with namedSpread := some value }

/-- Arguments can be read one behind the other. -/
inductive Reaches : ArgList → List Argument → ArgList → Prop
  | nil {args : ArgList} : Reaches args [] args
  | cons {args last : ArgList} {arg : Argument} {others : List Argument} :
    args.Admits arg → Reaches (args.add arg) others last → Reaches args (arg :: others) last

variable {args : ArgList}

theorem Reaches.append {between : ArgList} {front back : List Argument}
    (first : Reaches args front between)
    (second : Reaches between back last) : Reaches args (front ++ back) last := by
  induction first with
  | nil => exact second
  | cons admits _ ih => exact .cons admits (ih second)

theorem reaches_positional (nonempty : spread = true → values ≠ []) (done : Array Expr) :
    Reaches { positional := done } (Argument.ofPositional spread values)
      { positional := done ++ values.toArray, spread } := by
  induction values generalizing done with
  | nil =>
    cases spread with
    | true => exact absurd rfl (nonempty rfl)
    | false => simpa [Argument.ofPositional] using Reaches.nil
  | cons value values ih =>
    cases values with
    | nil => exact .cons ⟨rfl, rfl⟩ (by simpa [add] using Reaches.nil)
    | cons next values =>
      refine .cons ⟨rfl, rfl⟩ ?_
      simpa [add] using ih (by simp) (done.push value)

theorem reaches_named (open_ : args.namedSpread = none) (named : List NamedArg) :
    Reaches args (named.map .named) { args with named := args.named ++ named.toArray } := by
  induction named generalizing args with
  | nil => simpa using Reaches.nil
  | cons arg named ih =>
    have still : (args.add (.named arg)).namedSpread = none := open_
    refine .cons open_ ?_
    simpa [add] using ih still

theorem reaches_all (nonempty : spread = true → positional ≠ [])
    (closed : namedSpread.isSome = true → spread = true ∨ named ≠ []) :
    Reaches {} (Argument.all positional spread named namedSpread)
      { positional := positional.toArray, spread, named := named.toArray, namedSpread } := by
  have first := reaches_positional nonempty #[]
  rw [Array.empty_append] at first
  refine (first.append (reaches_named rfl named)).append ?_
  rw [Array.empty_append]
  cases namedSpread with
  | none => exact .nil
  | some value =>
    refine .cons ⟨rfl, ?_⟩ .nil
    simpa [ArgList.closed] using closed rfl

end ArgList

variable {done : ArgList} {least : Level} {expr : Expr} {before : List Token}

/-- The dots behind the value of an argument are taken if there are any. -/
theorem dots_takes {next : Bool → Parse α}
    (second : ∀ count, Takes count (endsItem .rightParen) (next spread) [] final) :
    Takes count (endsItem .rightParen) (acceptMark .ellipsis >>= next) (dots spread) final := by
  cases spread with
  | true => exact .accept rfl (second _)
  | false =>
    exact .refuse (.nil fun _ ends => by rcases ends with kind | kind <;> simp [kind]) (second _)

section
variable (rereads : nested.Rereads)
include rereads

variable {value : Expr}

theorem positionalArg_takes (proper : value.Proper) (le : count ≤ nested.fuel)
    (open_ : done.namedSpread = none) {final : ArgList → Prop}
    (whenOpen : done.closed = false → ∀ value', value'.bare = value.bare →
      final { done with positional := done.positional.push value', spread })
    (whenClosed : done.closed = true → spread = true ∧ ∀ value', value'.bare = value.bare →
      final { done with namedSpread := some value' }) :
    Takes count (endsItem .rightParen) (argument nested done)
      (value.pieces ++ dots spread) final := by
  have behind : First (dots spread) (endsItem .rightParen) fun token =>
      token.kind.continuation? = none ∧ token.kind ≠ .mark .assign := by
    cases spread with
    | true => exact .known rfl fun _ kind => by rw [kind]; exact ⟨rfl, by simp⟩
    | false =>
      exact .nil fun _ ends => ⟨ends.stops rfl, by rcases ends with kind | kind <;> simp [kind]⟩
  intro tokens after spelled enough follow
  refine .step (isNext_eq _ _) (.step (isSecond_eq _ _) ?_)
  rw [if_neg]
  swap
  · obtain ⟨front, back, rfl, first, second⟩ := spelled.split
    have other := behind back after second follow
    rw [append_assoc, (starts_pieces value).second first rfl (other.imp fun _ => And.right)]
    exact Bool.false_ne_true
  refine Takes.apply ?_ spelled enough follow
  refine (rereads.lowest proper le).bind (behind.imp fun _ => And.left) fun value' same => ?_
  refine dots_takes fun _ => ?_
  dsimp only
  rw [if_neg (by simp [open_])]
  cases closed : done.closed with
  | false =>
    rw [if_neg (by simp)]
    exact .pure (whenOpen closed value' same)
  | true =>
    obtain ⟨rfl, given⟩ := whenClosed closed
    rw [if_pos rfl, if_pos rfl]
    exact .pure (given value' same)

theorem namedArg_takes {name : Ident} (proper : value.Proper) (le : count ≤ nested.fuel)
    (open_ : done.namedSpread = none) :
    Takes count (endsItem .rightParen) (argument nested done) (NamedArg.pieces (.mk name value))
      fun done' =>
      ∃ arg, done' = { done with named := done.named.push arg } ∧
        arg.bare = NamedArg.bare (.mk name value) := by
  rw [NamedArg.pieces]
  intro tokens after spelled enough follow
  refine .step (isNext_eq _ _) (.step (isSecond_eq _ _) ?_)
  rw [if_pos]
  swap
  · obtain ⟨token, _, rfl, ⟨_, kind, _⟩, spelled⟩ := spelled.uncons
    obtain ⟨assign, _, rfl, ⟨_, assigns, _⟩, _⟩ := spelled.uncons
    simp [kind, ParseState.ofTokens, Stream.second, assigns]
  refine Takes.apply ?_ spelled enough follow
  refine .ident fun name' sameName => .skip ?_
  dsimp only
  rw [if_neg (by simp [open_])]
  refine ((rereads.lowest proper (by omega)).before fun _ => endsItem.stops rfl).last
    fun value' same => ?_
  exact .pure ⟨_, rfl, by simp [NamedArg.bare, same, Ident.bare, sameName]⟩

/-- A printed argument is read as what it is, in the place where it may stand. -/
theorem argument_takes {others : List Argument} (proper : arg.value.Proper)
    (reaches : ArgList.Reaches done.bare ((arg :: others).map Argument.bare) last)
    (le : count ≤ nested.fuel) :
    Takes count (endsItem .rightParen) (argument nested done) arg.pieces fun done' =>
      ArgList.Reaches done'.bare (others.map Argument.bare) last := by
  obtain ⟨admits, reaches⟩ : done.bare.Admits arg.bare ∧
      ArgList.Reaches (done.bare.add arg.bare) (others.map Argument.bare) last := by
    cases reaches with
    | cons admits reaches => exact ⟨admits, reaches⟩
  cases arg with
  | named arg =>
    obtain ⟨name, value⟩ := arg
    change value.Proper at proper
    refine (namedArg_takes rereads proper le ?_).imp ?_
    · simpa [ArgList.Admits, Argument.bare, ArgList.bare] using admits
    · rintro _ ⟨arg', rfl, same⟩
      simpa [ArgList.add, Argument.bare, ArgList.bare, same] using reaches
  | positional value spread =>
    obtain ⟨open_, notClosed⟩ := admits
    change value.Proper at proper
    refine positionalArg_takes rereads proper le ?_ ?_ ?_
    · simpa [ArgList.bare] using open_
    · intro _ value' same
      simpa [ArgList.add, Argument.bare, ArgList.bare, same] using reaches
    · intro closed
      rw [ArgList.closed_bare, closed] at notClosed
      cases notClosed
  | namedSpread value =>
    obtain ⟨open_, closed⟩ := admits
    change value.Proper at proper
    refine positionalArg_takes rereads proper le ?_ ?_ ?_
    · simpa [ArgList.bare] using open_
    · intro notClosed
      rw [ArgList.closed_bare, notClosed] at closed
      cases closed
    · intro _
      refine ⟨rfl, fun value' same => ?_⟩
      simpa [ArgList.add, Argument.bare, ArgList.bare, same] using reaches

variable {object object' : Expr} (same : object'.bare = object.bare) (le : count ≤ nested.fuel + 1)
include same le

theorem callExpr_takes (properPositional : ∀ arg ∈ positional, arg.Proper)
    (properNamed : ∀ arg ∈ named, arg.value.Proper) (properSpread : ∀ arg ∈ namedSpread, arg.Proper)
    (nonempty : spread = true → positional ≠ [])
    (closed : namedSpread.isSome = true → spread = true ∨ named ≠ []) :
    Takes count follows (callExpr nested object')
      (.mark .leftParen :: (Args.pieces (.mk positional spread named namedSpread) ++
      [.mark .rightParen]))
      (·.bare = bare (.call span object (.mk positional spread named namedSpread))) := by
  rw [Argument.pieces_all]
  refine .skip ?_
  refine (commaSeparated_takes (fun (done : ArgList) (left : List Argument) =>
    (∀ arg ∈ left, arg.value.Proper) ∧ ArgList.Reaches done.bare (left.map Argument.bare)
      { positional := (positional.map Expr.bare).toArray, spread,
        named := (named.map NamedArg.bare).toArray, namedSpread := namedSpread.map Expr.bare })
    (by decide) (fun arg => ?_) ?_
    ⟨Argument.value_proper_all properPositional properNamed properSpread, ?_⟩ (by omega)).bind
    (.known rfl fun _ => id) ?_
  · have ofExpr (expr : Expr) : First expr.pieces (fun _ => True) fun token =>
        token.kind ≠ .mark .rightParen ∧ token.kind ≠ .endOfFile :=
      (starts_pieces expr).first.imp fun _ starts =>
        ⟨startsExpr_ne starts.1 rfl, startsExpr_ne starts.1 rfl⟩
    cases arg with
    | named arg =>
      obtain ⟨name, value⟩ := arg
      rw [Argument.pieces, NamedArg.pieces]
      exact .known rfl fun _ kind => by simp [kind]
    | positional value spread | namedSpread value => exact (ofExpr value).append
  · intro done arg left fits
    exact (argument_takes rereads (fits.1 arg (by simp)) fits.2 (Nat.le_refl _)).imp
      fun done' reaches => ⟨fun other member => fits.1 other (by simp [member]), reaches⟩
  · rw [Argument.map_bare_all]
    have empty : ArgList.bare {} = {} := by simp [ArgList.bare]
    rw [empty]
    refine ArgList.reaches_all ?_ ?_
    · simpa using nonempty
    · simpa using closed
  · intro done fits
    refine .expect rfl fun _ _ => .pure ?_
    generalize reached : done.bare = last at fits
    obtain ⟨_, ⟨⟩⟩ := fits
    rw [Expr.bare, ArgList.bare_build, reached, same]
    simp [Expr.bare, ArgList.build, Args.bare]

end

/-- An expression that may be missing before a mark. -/
theorem optional_takes {parser : Parse Expr} {bound : Option Expr} {close : Mark}
    {back : List Piece} {next : Option Expr → Parse α}
    (reads : ∀ expr ∈ bound, Takes count (·.kind.continuation? = none) parser expr.pieces
      (·.bare = expr.bare))
    (ends : close.continuation? = none) (notStart : (Kind.mark close).startsExpr = false)
    (second : ∀ bound', bound'.map Expr.bare = bound.map Expr.bare →
      Takes (count - (optPieces bound).length) follows (next bound') (.mark close :: back) final) :
    Takes count follows (isNextMark close >>= fun missing =>
        if missing = true then pure none >>= next else (some <$> parser) >>= next)
      (optPieces bound ++ .mark close :: back) final := by
  refine .optional Expr.bare bound ?_ ?_ (.stops rfl ends) second
  · rintro rfl
    exact ⟨by rw [optPieces], .known rfl fun _ => id⟩
  · rintro value rfl
    rw [optPieces]
    exact ⟨(starts_pieces value).other notStart, reads value rfl⟩

section
variable {object object' : Expr} (rereads : nested.Rereads) (same : object'.bare = object.bare)
  (le : count ≤ nested.fuel + 1)
include rereads same le

theorem sliceExpr_takes {low high : Option Expr} (properLow : ∀ bound ∈ low, bound.Proper)
    (properHigh : ∀ bound ∈ high, bound.Proper) :
    Takes count follows (indexExpr nested object')
      (.mark .leftBracket :: (optPieces low ++
      .mark .colon :: (optPieces high ++ [.mark .rightBracket])))
      (·.bare = bare (.slice span object low high)) := by
  refine .skipExpect rfl ?_
  refine optional_takes
    (fun bound member => rereads.lowest (properLow bound member) (by omega)) rfl rfl
    fun low' sameLow => .accept rfl ?_
  refine optional_takes
    (fun bound member => rereads.lowest (properHigh bound member) (by omega)) rfl rfl
    fun high' sameHigh => .expect rfl fun _ _ => ?_
  exact .pure (by simp [Expr.bare, same, sameLow, sameHigh])

theorem indexExpr_takes {index : Expr} (proper : index.Proper) :
    Takes count follows (indexExpr nested object')
      (.mark .leftBracket :: (index.pieces ++ [.mark .rightBracket]))
      (·.bare = bare (.index span object index)) := by
  refine .skipExpect rfl (.isOther ((starts_pieces index).other rfl).append ?_)
  refine ((rereads.lowest proper (by omega)).map fun index' same => ?_).bind (.stops rfl rfl)
    fun low (read : ∃ index', low = some index' ∧ index'.bare = index.bare) => ?_
  · exact ⟨index', rfl, same⟩
  obtain ⟨index', rfl, sameIndex⟩ := read
  refine .refuse (.known rfl fun _ kind => by simp [kind]) (.expect rfl fun _ _ => ?_)
  exact .pure (by simp [Expr.bare, same, sameIndex])

end

/-! ## Operands and what continues them -/

/-- Reading an expression comes to a point where an operand has been read, and goes on by continuing
it from there. -/
def ReadsOperand (nested : Nested) (least : Level) (expr : Expr) (before after : List Token) :
    Prop :=
  ∃ expr' fuel, expr'.bare = expr.bare ∧ after.length ≤ fuel ∧
    exprAt nested least (.ofTokens before) = continueAll nested least fuel expr' (.ofTokens after)

theorem readsOperand_of_unary
    (read : Takes (nested.fuel + 1) follows (unaryExpr nested) pieces (·.bare = expr.bare))
    (nonempty : pieces ≠ []) (spelled : Spelled pieces tokens)
    (enough : (tokens ++ after).length ≤ nested.fuel + 1) (follow : Begins follows after) :
    ReadsOperand nested least expr (tokens ++ after) after := by
  obtain ⟨expr', read, same⟩ := read tokens after spelled enough follow
  have positive := length_pos_of_ne_nil nonempty
  rw [length_append, ← spelled.length_eq] at enough
  exact ⟨expr', nested.fuel, same, by omega, bind_ok read⟩

/-- One more round: what the next token announces is read and becomes the operand. -/
theorem ReadsOperand.step {left : Expr} {token : Token}
    (operand : ReadsOperand nested least left before (token :: tokens))
    (continues : token.kind.continuation? = some continuation)
    (inline : token.newlineBefore = false) (tight : least.toNat ≤ continuation.level.toNat)
    (shorter : after.length ≤ tokens.length)
    (read : ∀ left', left'.bare = left.bare → Yields (continueExpr nested left'
      continuation.level.ofRightOperand continuation) (token :: tokens) after
        (·.bare = expr.bare)) :
    ReadsOperand nested least expr before after := by
  obtain ⟨left', fuel, sameLeft, enough, reads⟩ := operand
  obtain ⟨expr', read, same⟩ := read left' sameLeft
  cases fuel with
  | zero => simp at enough
  | succ fuel =>
    refine ⟨expr', fuel, same, by simp at enough; omega, ?_⟩
    rw [reads]
    conv => lhs; unfold continueAll
    rw [bind_ok (next_eq _), show (ParseState.ofTokens (token :: tokens)).stream.next
      = token from rfl, continues]
    dsimp only
    rw [if_neg (by simp [inline]; omega), bind_ok read]

/-- An operand in front of a mark that continues it: how that is read decides. -/
theorem ReadsOperand.behind {object : Expr} {mark : Mark}
    (operand : ∀ {tokens after : List Token}, object.Proper → least.toNat ≤ object.level.toNat →
      Spelled object.pieces tokens → (tokens ++ after).length ≤ nested.fuel + 1 →
      Begins (·.Ends (object.limit + 1)) after →
        ReadsOperand nested least object (tokens ++ after) after)
    (proper : object.Proper) (spelled : Spelled (object.pieces ++ .mark mark :: pieces) tokens)
    (enough : (tokens ++ after).length ≤ nested.fuel + 1) (follow : Begins follows after)
    (continues : mark.continuation? = some continuation)
      (level : least.toNat ≤ continuation.level.toNat)
    (tight : continuation.level.toNat ≤ object.limit)
    (read : ∀ object', object'.bare = object.bare → Takes (nested.fuel + 1) follows
      (continueExpr nested object' continuation.level.ofRightOperand continuation)
      (.mark mark :: pieces) (·.bare = expr.bare)) :
    ReadsOperand nested least expr (tokens ++ after) after := by
  obtain ⟨front, _, rfl, first, printed⟩ := spelled.split
  have spelled := printed
  obtain ⟨token, others, rfl, ⟨inline, kind, _⟩, _⟩ := printed.uncons
  rw [append_assoc] at enough ⊢
  have announces : token.kind.continuation? = some continuation := by
    rw [kind]
    exact continues
  have read' :=
    operand proper (Nat.le_trans (Nat.le_trans level tight) object.limit_le_level) first enough
    ⟨token, others ++ after, rfl, Token.ends_of_some announces (Nat.lt_succ_of_le tight)⟩
  refine read'.step announces inline level (by simp) fun object' same => ?_
  exact read object' same _ after spelled (by simp at enough ⊢; omega) follow

/-- At the end of an operand nothing continues it. -/
theorem ReadsOperand.exprAt (operand : ReadsOperand nested least expr before after)
    (ends : Begins (·.Ends least.toNat) after) :
    Yields (exprAt nested least) before after (·.bare = expr.bare) := by
  obtain ⟨expr', fuel, same, enough, reads⟩ := operand
  obtain ⟨next, rest, rfl, ends⟩ := ends
  refine ⟨expr', ?_, same⟩
  rw [reads]
  cases fuel with
  | zero => rfl
  | succ fuel =>
    unfold continueAll
    rw [bind_ok (next_eq _), show (ParseState.ofTokens (next :: rest)).stream.next = next from rfl]
    cases continues : next.kind.continuation? with
    | none => rfl
    | some continuation =>
      have loose := ends continuation continues
      dsimp only
      rw [if_pos]
      · rfl
      · cases inline : next.newlineBefore with
        | true => simp
        | false => simpa using loose inline

section
variable {motive : Expr → Prop} (primary : ∀ expr, isPrimary expr = true → motive expr)
  (unary : ∀ span op operand, motive (.unary span op operand))
  (binary : ∀ span op left right, motive left → motive (.binary span op left right))
  (cond : ∀ span test yes no, motive test → motive (.cond span test yes no))
  (call : ∀ span callee args, motive callee → motive (.call span callee args))
  (index : ∀ span object index, motive object → motive (.index span object index))
  (select : ∀ span object field, motive object → motive (.select span object field))
  (slice : ∀ span object low high, motive object → motive (.slice span object low high))
include primary unary binary cond call index select slice

/-- Expressions are built from their first operands. -/
@[elab_as_elim]
theorem firstOperand_induction : ∀ expr, motive expr
  | .literal .. | .name .. | .array .. | .map .. | .func .. | .paren .. | .error .. | .immutable ..
  | .importModule .. => primary _ rfl
  | .unary .. => unary _ _ _
  | .binary _ _ left _ => binary _ _ _ _ (firstOperand_induction left)
  | .cond _ test _ _ => cond _ _ _ _ (firstOperand_induction test)
  | .call _ callee _ => call _ _ _ (firstOperand_induction callee)
  | .index _ object _ => index _ _ _ (firstOperand_induction object)
  | .select _ object _ => select _ _ _ (firstOperand_induction object)
  | .slice _ object _ _ => slice _ _ _ _ (firstOperand_induction object)

end

section
variable (rereads : nested.Rereads) (proper : expr.Proper) (level : least.toNat ≤ expr.level.toNat)
include rereads proper level

/-- The tokens of a printed expression are read as an operand. -/
theorem readsOperand (spelled : Spelled expr.pieces tokens)
    (enough : (tokens ++ after).length ≤ nested.fuel + 1)
    (ends : Begins (·.Ends (expr.limit + 1)) after) :
    ReadsOperand nested least expr (tokens ++ after) after := by
  induction expr using firstOperand_induction generalizing tokens after with
  | primary expr isPrimary =>
    exact readsOperand_of_unary (unaryExpr_takes rereads proper isPrimary (Nat.le_refl _))
      (starts_pieces expr).ne_nil spelled enough ends
  | unary span op operand =>
    cases proper with
    | unary tight proper =>
      rw [Expr.pieces] at spelled
      refine readsOperand_of_unary (.nextKind rfl ?_) (cons_ne_nil _ _) spelled enough ends
      rw [show (Kind.mark op.mark).unary? = some op from op.unary?_mark]
      refine .advance fun _ _ => (rereads.expr proper tight (Nat.le_refl _)).last
        fun operand' same => ?_
      exact .pure (by simp [Expr.bare, same])
  | binary span op left right ih =>
    cases proper with
    | binary tightLeft tightRight leftProper rightProper =>
      rw [Expr.pieces] at spelled
      refine .behind ih leftProper spelled enough ends op.continuation?_mark level tightLeft
        fun left' same => ?_
      refine .skip (((rereads.expr rightProper tightRight (Nat.le_refl _)).before
        fun _ ends => ?_).last fun right' sameRight => .pure (by simp [Expr.bare, same, sameRight]))
      rw [op.toNat_ofRightOperand]
      exact ends
  | cond span test yes no ih =>
    cases proper with
    | cond tightTest tightNo testProper yesProper noProper =>
      rw [Expr.pieces, append_assoc, cons_append] at spelled
      refine .behind ih testProper spelled enough ends rfl level tightTest fun test' same =>
        .skip ?_
      refine (rereads.lowest yesProper (Nat.le_refl _)).bind (.stops rfl rfl) fun yes' sameYes => ?_
      refine .skipExpect rfl ((rereads.expr noProper tightNo (by omega)).last fun no' sameNo => ?_)
      exact .pure (by simp [Expr.bare, same, sameYes, sameNo])
  | call span callee args ih =>
    cases proper with
    | call tight calleeProper properPositional properNamed properSpread nonempty closed =>
      rw [Expr.pieces, append_assoc, cons_append] at spelled
      exact .behind ih calleeProper spelled enough ends rfl level tight fun callee' same =>
        callExpr_takes rereads same (Nat.le_refl _) properPositional properNamed properSpread
          nonempty closed
  | index span object index ih =>
    cases proper with
    | index tight objectProper indexProper =>
      rw [Expr.pieces, append_assoc, cons_append] at spelled
      exact .behind ih objectProper spelled enough ends rfl level tight fun object' same =>
        indexExpr_takes rereads same (Nat.le_refl _) indexProper
  | select span object field ih =>
    cases proper with
    | select tight objectProper =>
      rw [Expr.pieces] at spelled
      refine .behind ih objectProper spelled enough ends rfl level tight fun object' same => ?_
      refine .skip (.ident fun field' sameField => ?_)
      exact .pure (by simp [Expr.bare, same, Ident.bare, sameField])
  | slice span object low high ih =>
    cases proper with
    | slice tight objectProper lowProper highProper =>
      simp only [Expr.pieces, append_assoc, cons_append] at spelled
      exact .behind ih objectProper spelled enough ends rfl level tight fun object' same =>
        sliceExpr_takes rereads same (Nat.le_refl _) lowProper highProper

theorem exprAt_takes (le : count ≤ nested.fuel + 1) :
    Takes count (·.Ends least.toNat) (exprAt nested least) expr.pieces (·.bare = expr.bare) := by
  intro tokens after spelled enough ends
  have limit := expr.level_le_limit
  have operand := readsOperand rereads proper level spelled (Nat.le_trans enough le)
    (ends.imp fun _ ends => ends.mono (by omega))
  exact operand.exprAt ends

end

end expressions

end Parse

end Skiff
