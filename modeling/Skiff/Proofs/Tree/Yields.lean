import Skiff.Proofs.Tree.Proper
import Skiff.Proofs.Tree.Reads

/-!
# Reading given tokens

What parsers do with tokens that are known: they take them one by one and give a value. So they do
with every spelling of printed pieces, as long as the token behind them does not get in the way. And
how the tokens of a printed expression start, which decides what the parsers take them for.
-/

namespace Skiff

open List Expr

/-- The state with some tokens to be read. -/
def ParseState.ofTokens (tokens : List Token) : ParseState :=
  { stream := { next := tokens.headD default, rest := tokens.tail } }

/-- The kinds of the tokens with which an expression may start. -/
def Kind.startsExpr : Kind → Bool
  | .ident => true
  | .keyword word => word ∈ [.func, .error, .immutable, .import_, .true_, .false_, .undefined]
  | .mark sign => sign.unary?.isSome || sign ∈ [.leftParen, .leftBracket, .leftBrace]
  | kind => kind.isLiteral

/-- The kind that a piece asks for, unless it leaves a choice. -/
def Piece.kind? : Piece → Option Kind
  | keyword word => some (.keyword word)
  | mark sign => some (.mark sign)
  | ident _ => some .ident
  | quoted _ => some .string
  | literal _ | key _ => none

theorem Piece.Spells.kind {piece : Piece} {token : Token} {kind : Kind}
    (spells : piece.Spells token) (asks : piece.kind? = some kind) : token.kind = kind := by
  cases piece <;> cases asks <;> exact spells.2.1

namespace Parse

/-- Without an error, a parser reads the tokens before others and gives a value with a property. -/
def Yields {α : Type} (parser : Parse α) (before after : List Token) (holds : α → Prop) : Prop :=
  ∃ value, parser (.ofTokens before) = .ok value (.ofTokens after) ∧ holds value

namespace Yields
variable {α β : Type} {parser : Parse α} {next : α → Parse β} {before between after : List Token}
  {holds : α → Prop} {final : β → Prop}

theorem pure {value : α} (given : holds value) : Yields (pure value) after after holds :=
  ⟨value, rfl, given⟩

theorem bind (first : Yields parser before between holds)
    (second : ∀ value, holds value → Yields (next value) between after final) :
    Yields (parser >>= next) before after final := by
  obtain ⟨value, read, given⟩ := first
  obtain ⟨result, readRest, finally_⟩ := second value given
  refine ⟨result, ?_, finally_⟩
  rw [bind_ok read]
  exact readRest

/-- A parser that reads one value exactly. -/
theorem step {value : α} (read : parser (.ofTokens before) = .ok value (.ofTokens between))
    (second : Yields (next value) between after final) :
      Yields (parser >>= next) before after final := by
  have first : Yields parser before between (· = value) := ⟨value, read, rfl⟩
  refine first.bind ?_
  rintro _ rfl
  exact second

end Yields

section steps
variable {token : Token} {tokens : List Token} {kind : Kind}

theorem advance_ofTokens (more : tokens ≠ []) :
    advance (.ofTokens (token :: tokens)) = .ok token (.ofTokens tokens) := by
  cases tokens with
  | nil => exact absurd rfl more
  | cons next rest => rfl

theorem expect_ofTokens (more : tokens ≠ []) (same : token.kind = kind) :
    expect kind (.ofTokens (token :: tokens)) = .ok token (.ofTokens tokens) := by
  unfold expect
  rw [bind_ok (isNext_true same), if_pos rfl, advance_ofTokens more]

theorem accept_ofTokens (more : tokens ≠ []) (same : token.kind = kind) :
    accept kind (.ofTokens (token :: tokens)) = .ok true (.ofTokens tokens) := by
  unfold accept
  rw [bind_ok (isNext_true same), if_pos rfl, bind_ok (discard_of_ok (advance_ofTokens more))]
  rfl

end steps

/-! ## Spellings of pieces -/

/-- The first of some tokens has a property. -/
def Begins (holds : Token → Prop) (tokens : List Token) : Prop :=
  ∃ token rest, tokens = token :: rest ∧ holds token

/-- The first token of every spelling of pieces has a property, or the token behind it if it is
empty. -/
def First (pieces : List Piece) (follows holds : Token → Prop) : Prop :=
  ∀ tokens after, Spelled pieces tokens → Begins follows after → Begins holds (tokens ++ after)

/-- A parser reads every spelling of pieces before a token that may follow it, if no more than a
number of tokens are left, and gives a value with a property. -/
def Takes {α : Type} (count : Nat) (follows : Token → Prop) (parser : Parse α) (pieces : List Piece)
    (given : α → Prop) : Prop :=
  ∀ tokens after, Spelled pieces tokens → (tokens ++ after).length ≤ count → Begins follows after →
    Yields parser (tokens ++ after) after given

variable {mark : Mark}

section
variable {piece : Piece} {pieces others front back : List Piece}
  {follows follows' holds holds' : Token → Prop} {kind : Kind}

variable {tokens : List Token}

theorem Begins.ne_nil (begins : Begins holds tokens) : tokens ≠ [] := by
  obtain ⟨token, rest, rfl, _⟩ := begins
  exact cons_ne_nil token rest

theorem Begins.imp (begins : Begins holds tokens) (given : ∀ token, holds token → holds' token) :
    Begins holds' tokens := by
  obtain ⟨token, rest, split, known⟩ := begins
  exact ⟨token, rest, split, given token known⟩

namespace First

theorem nil (given : ∀ token, follows token → holds token) : First [] follows holds := by
  intro tokens after spelled may
  obtain rfl := spelled.eq_nil
  exact may.imp given

theorem cons (given : ∀ token, piece.Spells token → holds token) :
    First (piece :: pieces) follows holds := by
  intro tokens after spelled _
  obtain ⟨token, rest, rfl, spells, _⟩ := spelled.uncons
  exact ⟨token, rest ++ after, rfl, given token spells⟩

/-- The kind of the first token is known. -/
theorem known (asks : piece.kind? = some kind) (given : ∀ token : Token, token.kind = kind →
    holds token) : First (piece :: pieces) follows holds :=
  cons fun token spells => given token (spells.kind asks)

/-- The first token does not continue an expression before it. -/
theorem stops (asks : piece.kind? = some kind) (none : kind.continuation? = none) :
    First (piece :: pieces) follows (·.kind.continuation? = Option.none) :=
  known asks fun _ same => same ▸ none

theorem imp (first : First pieces follows holds) (given : ∀ token, holds token → holds' token) :
    First pieces follows holds' :=
  fun tokens after spelled may => (first tokens after spelled may).imp given

theorem append (first : First pieces (fun _ => True) holds) :
    First (pieces ++ others) follows holds := by
  intro tokens after spelled may
  obtain ⟨front, back, rfl, spelled, _⟩ := spelled.split
  rw [append_assoc]
  refine first front _ spelled ?_
  obtain ⟨token, rest, rfl, _⟩ := may
  cases back with
  | nil => exact ⟨token, rest, rfl, trivial⟩
  | cons first back => exact ⟨first, back ++ token :: rest, rfl, trivial⟩

/-- Tokens that stand for pieces are on one line. -/
theorem inline (nonempty : pieces ≠ []) (first : First pieces follows holds) :
    First pieces follows fun token => holds token ∧ token.newlineBefore = false := by
  intro tokens after spelled may
  obtain ⟨token, rest, split, known⟩ := first tokens after spelled may
  refine ⟨token, rest, split, known, spelled.inline token ?_⟩
  cases spelled with
  | nil => exact absurd rfl nonempty
  | cons spells others =>
    obtain ⟨rfl, _⟩ := List.cons.inj split
    exact .head _

theorem any : First pieces follows fun _ => True := append (nil fun _ => id)

end First

namespace Takes
variable {α β γ : Type} {count : Nat} {parser : Parse α} {next : α → Parse β} {given : α → Prop}
  {final : β → Prop}

theorem pure {value : α} (holds : given value) : Takes count follows (pure value) [] given := by
  intro tokens after spelled _ _
  obtain rfl := spelled.eq_nil
  exact .pure holds

theorem apply {after : List Token} (takes : Takes count follows parser pieces given)
    (spelled : Spelled pieces tokens) (enough : (tokens ++ after).length ≤ count)
    (follow : Begins follows after) : Yields parser (tokens ++ after) after given :=
  takes tokens after spelled enough follow

section
variable (first : Takes count follows parser pieces given)
include first

theorem imp {weaker : α → Prop} (weaken : ∀ value, given value → weaker value) :
    Takes count follows parser pieces weaker := by
  intro tokens after spelled enough follow
  obtain ⟨value, read, holds⟩ := first tokens after spelled enough follow
  exact ⟨value, read, weaken value holds⟩

theorem before (may : ∀ token, follows' token → follows token) :
    Takes count follows' parser pieces given :=
  fun tokens after spelled enough follow => first tokens after spelled enough (follow.imp may)

theorem fewer {count' : Nat} (le : count' ≤ count) : Takes count' follows parser pieces given :=
  fun tokens after spelled enough => first tokens after spelled (Nat.le_trans enough le)

end

/-- There is always the token that follows. -/
theorem vacuous (le : count ≤ 0) : Takes count follows parser pieces given := by
  intro tokens after _ enough follow
  have := length_pos_of_ne_nil follow.ne_nil
  simp only [length_append] at enough
  omega

theorem bind (first : Takes count follows' parser front given)
    (between : First back follows follows')
    (second : ∀ value, given value → Takes (count - front.length) follows (next value) back final) :
    Takes count follows (parser >>= next) (front ++ back) final := by
  intro tokens after spelled enough follow
  obtain ⟨fronts, backs, rfl, spelledFront, spelledBack⟩ := spelled.split
  rw [append_assoc] at enough ⊢
  refine (first fronts _ spelledFront enough (between backs after spelledBack follow)).bind ?_
  intro value holds
  refine second value holds backs after spelledBack ?_ follow
  rw [spelledFront.length_eq]
  simp only [length_append] at enough ⊢
  omega

section
variable (first : Takes count follows parser pieces given)
include first

/-- A construct behind which nothing is read. -/
theorem last (second : ∀ value, given value → Takes (count - pieces.length) follows
    (next value) [] final) : Takes count follows (parser >>= next) pieces final := by
  rw [← append_nil pieces]
  exact first.bind (.nil fun _ => id) second

theorem map {build : α → β} (built : ∀ value, given value → final (build value)) :
    Takes count follows (build <$> parser) pieces final := by
  rw [← bind_pure_comp]
  exact first.last fun value holds => pure (built value holds)

theorem attempt :
    Takes count follows (Parse.attempt parser) pieces fun result =>
      ∃ value, result = some value ∧ given value := by
  intro tokens after spelled enough follow
  obtain ⟨value, read, holds⟩ := first tokens after spelled enough follow
  exact ⟨some value, by rw [Parse.attempt, read], value, rfl, holds⟩

end

/-- One token is taken. -/
theorem token {view : Token → α} (reads : ∀ token tokens, tokens ≠ [] → piece.Spells token →
      parser (.ofTokens (token :: tokens)) = .ok (view token) (.ofTokens tokens))
    (second : ∀ token, piece.Spells token →
      Takes (count - 1) follows (next (view token)) pieces final) :
    Takes count follows (parser >>= next) (piece :: pieces) final := by
  intro tokens after spelled enough follow
  obtain ⟨token, rest, rfl, spells, spelled⟩ := spelled.uncons
  have more : rest ++ after ≠ [] := append_ne_nil_of_right_ne_nil _ follow.ne_nil
  refine .step (reads token (rest ++ after) more spells) ?_
  exact second token spells rest after spelled (Nat.le_sub_one_of_lt enough) follow

theorem advance {next : Token → Parse β}
    (second : ∀ token, piece.Spells token → Takes (count - 1) follows (next token) pieces final) :
    Takes count follows (Parse.advance >>= next) (piece :: pieces) final :=
  token (fun _ _ more _ => advance_ofTokens more) second

theorem skip {next : Unit → Parse β} (second : Takes (count - 1) follows (next ()) pieces final) :
    Takes count follows (discard Parse.advance >>= next) (piece :: pieces) final :=
  token (fun _ _ more _ => discard_of_ok (advance_ofTokens more)) fun _ _ => second

theorem expect {next : Token → Parse β} (asks : piece.kind? = some kind)
    (second : ∀ token, piece.Spells token → Takes (count - 1) follows (next token) pieces final) :
    Takes count follows (Parse.expect kind >>= next) (piece :: pieces) final :=
  token (fun _ _ more spells => expect_ofTokens more (spells.kind asks)) second

theorem skipExpect {next : Unit → Parse β} (asks : piece.kind? = some kind)
    (second : Takes (count - 1) follows (next ()) pieces final) :
    Takes count follows (discard (Parse.expect kind) >>= next) (piece :: pieces) final :=
  token (fun _ _ more spells => discard_of_ok (expect_ofTokens more (spells.kind asks)))
    fun _ _ => second

theorem ident {name : String} {next : Ident → Parse β}
    (second : ∀ ident : Ident, ident.name = name →
    Takes (count - 1) follows (next ident) pieces final) :
    Takes count follows (Parse.ident >>= next) (.ident name :: pieces) final :=
  token (fun _ _ more spells => bind_ok (expect_ofTokens more (spells.kind rfl)))
    fun _ spells => second _ spells.2.2

theorem accept {next : Bool → Parse β} (asks : piece.kind? = some kind)
    (second : Takes (count - 1) follows (next true) pieces final) :
    Takes count follows (Parse.accept kind >>= next) (piece :: pieces) final :=
  token (fun _ _ more spells => accept_ofTokens more (spells.kind asks)) fun _ _ => second

/-- The state is looked at. -/
theorem look (view : ParseState → α) (looks : ∀ state, parser state = .ok (view state) state)
    (second : ∀ tokens after, Spelled pieces tokens → Begins follows after →
      Takes count follows (next (view (.ofTokens (tokens ++ after)))) pieces final) :
    Takes count follows (parser >>= next) pieces final := by
  intro tokens after spelled enough follow
  exact .step (looks _) ((second tokens after spelled follow).apply spelled enough follow)

/-- One token is looked at. -/
theorem peek (view : Token → α) (peeks : ∀ state, parser state = .ok (view state.stream.next) state)
    (first : First pieces follows holds)
    (second : ∀ token, holds token → Takes count follows (next (view token)) pieces final) :
    Takes count follows (parser >>= next) pieces final := by
  refine look _ peeks fun tokens after spelled follow => second _ ?_
  obtain ⟨token, rest, split, known⟩ := first tokens after spelled follow
  rw [split]
  exact known

theorem lookAhead {next : Token → Parse β} (first : First pieces follows holds)
    (second : ∀ token, holds token → Takes count follows (next token) pieces final) :
    Takes count follows (Parse.next >>= next) pieces final :=
  peek id next_eq first second

theorem nextKind {next : Kind → Parse β} (asks : piece.kind? = some kind)
    (second : Takes count follows (next kind) (piece :: pieces) final) :
    Takes count follows (Parse.nextKind >>= next) (piece :: pieces) final :=
  peek Token.kind nextKind_eq (.known asks fun _ => id) fun _ same => same ▸ second

theorem isNext {next : Bool → Parse β} (first : First pieces follows (·.kind = kind))
    (second : Takes count follows (next true) pieces final) :
    Takes count follows (Parse.isNext kind >>= next) pieces final := by
  refine peek (·.kind == kind) (isNext_eq kind) first fun token same => ?_
  rwa [beq_iff_eq.2 same]

theorem isOther {next : Bool → Parse β} (first : First pieces follows (·.kind ≠ kind))
    (second : Takes count follows (next false) pieces final) :
    Takes count follows (Parse.isNext kind >>= next) pieces final := by
  refine peek (·.kind == kind) (isNext_eq kind) first fun token other => ?_
  rwa [beq_eq_false_iff_ne.2 other]

theorem refuse {next : Bool → Parse β} (first : First pieces follows (·.kind ≠ kind))
    (second : Takes count follows (next false) pieces final) :
    Takes count follows (Parse.accept kind >>= next) pieces final := by
  intro tokens after spelled enough follow
  obtain ⟨token, rest, split, other⟩ := first tokens after spelled follow
  refine .step (accept_missing ?_) (second tokens after spelled enough follow)
  rw [split]
  exact other

/-- A part that is read unless a mark comes next. -/
theorem optional {next : Option α → Parse β} (view : α → γ) (part : Option α)
    (absent : part = none → front = [] ∧ First back follows (·.kind = .mark mark))
    (present : ∀ value ∈ part, First front (fun _ => True) (·.kind ≠ .mark mark) ∧
      Takes count follows' parser front (view · = view value))
    (between : First back follows follows')
    (second : ∀ part', part'.map view = part.map view → Takes (count - front.length) follows
      (next part') back final) :
    Takes count follows (Parse.isNextMark mark >>= fun missing =>
        if missing = true then Pure.pure none >>= next else (some <$> parser) >>= next)
      (front ++ back) final := by
  cases part with
  | none =>
    obtain ⟨rfl, marked⟩ := absent rfl
    exact isNext marked (second none rfl)
  | some value =>
    obtain ⟨other, reads⟩ := present value rfl
    refine isOther other.append ((reads.map fun value' same => ?_).bind between second)
    simp [same]

end Takes

end

/-! ## How printed expressions start -/

/-- The pieces of an expression: what its first piece may be, and the second one behind a name. -/
inductive Starts : Bool → List Piece → Prop
  | name {name : String} : Starts false [.ident name]
  | continued {name : String} {mark : Mark} {pieces : List Piece} :
    mark.continuation?.isSome = true → Starts false (.ident name :: .mark mark :: pieces)
  | literal {value : Literal} {pieces : List Piece} : Starts false (.literal value :: pieces)
  | keyword {word : Keyword} {pieces : List Piece} :
    word ∈ [.func, .error, .immutable, .import_] → Starts false (.keyword word :: pieces)
  | unary {op : UnaryOp} {pieces : List Piece} : Starts false (.mark op.mark :: pieces)
  | paren {pieces : List Piece} : Starts false (.mark .leftParen :: pieces)
  | bracket {pieces : List Piece} : Starts false (.mark .leftBracket :: pieces)
  | brace {pieces : List Piece} : Starts true (.mark .leftBrace :: pieces)

variable {brace : Bool} {pieces : List Piece}

theorem Starts.append (starts : Starts brace pieces) (continues : mark.continuation?.isSome = true)
    (others : List Piece) : Starts brace (pieces ++ .mark mark :: others) := by
  cases starts with
  | name | continued continues => exact .continued continues
  | literal => exact .literal
  | keyword word => exact .keyword word
  | unary => exact .unary
  | paren => exact .paren
  | bracket => exact .bracket
  | brace => exact .brace

theorem Starts.ne_nil (starts : Starts brace pieces) : pieces ≠ [] := by
  cases starts <;> exact cons_ne_nil _ _

theorem starts_pieces (expr : Expr) : Starts expr.braced expr.pieces := by
  match expr with
  | .literal .. => rw [pieces]; exact .literal
  | .name .. => rw [pieces]; exact .name
  | .array .. => rw [pieces]; exact .bracket
  | .map .. => rw [pieces]; exact .brace
  | .func .. => rw [pieces]; exact .keyword (by decide)
  | .unary .. => rw [pieces]; exact .unary
  | .binary _ op left _ =>
    rw [pieces]
    exact (starts_pieces left).append (by simp) _
  | .cond _ test _ _ =>
    rw [pieces, append_assoc]
    exact (starts_pieces test).append rfl _
  | .call _ callee _ =>
    rw [pieces, append_assoc]
    exact (starts_pieces callee).append rfl _
  | .index _ object _ =>
    rw [pieces, append_assoc]
    exact (starts_pieces object).append rfl _
  | .select _ object _ =>
    rw [pieces]
    exact (starts_pieces object).append rfl _
  | .slice _ object _ _ =>
    rw [pieces, append_assoc, append_assoc]
    exact (starts_pieces object).append rfl _
  | .paren .. => rw [pieces]; exact .paren
  | .error .. | .immutable .. | .importModule .. => rw [pieces]; exact .keyword (by decide)

theorem startsExpr_ne {kind other : Kind} (starts : kind.startsExpr = true)
    (none : other.startsExpr = false) : kind ≠ other := by
  rintro rfl
  rw [none] at starts
  cases starts

theorem Starts.first {follows : Token → Prop} (starts : Starts brace pieces) :
    First pieces follows fun token =>
      token.kind.startsExpr = true ∧ (token.kind == .mark .leftBrace) = brace := by
  cases starts with
  | name | continued | paren | bracket | brace =>
    refine .known rfl fun token kind => ?_
    rw [kind]
    exact ⟨rfl, rfl⟩
  | literal =>
    refine .cons fun token spells => ?_
    obtain ⟨_, literal, _⟩ := spells
    cases kind : token.kind with
    | keyword word => rw [kind] at literal; cases word <;> first | exact ⟨rfl, rfl⟩ | cases literal
    | mark | ident | endOfFile | illegal => rw [kind] at literal; cases literal
    | _ => exact ⟨rfl, rfl⟩
  | keyword known =>
    refine .known rfl fun token kind => ?_
    rw [kind]
    simp only [mem_cons, not_mem_nil, or_false] at known
    rcases known with rfl | rfl | rfl | rfl <;> exact ⟨rfl, rfl⟩
  | @unary op =>
    refine .known rfl fun token kind => ?_
    rw [kind]
    cases op <;> exact ⟨rfl, rfl⟩

/-- What starts like an expression is none of the other tokens. -/
theorem Starts.other {follows : Token → Prop} {kind : Kind} (starts : Starts brace pieces)
    (none : kind.startsExpr = false) : First pieces follows (·.kind ≠ kind) :=
  starts.first.imp fun _ found => startsExpr_ne found.1 none

/-- Behind a name at the start of an expression comes what continues it, or what comes behind the
whole expression. -/
theorem Starts.second {tokens after : List Token} {kind : Kind} (starts : Starts brace pieces)
    (spelled : Spelled pieces tokens) (none : kind.continuation? = none)
    (other : Begins (·.kind ≠ kind) after) :
    ((ParseState.ofTokens (tokens ++ after)).stream.next.kind == .ident &&
      (ParseState.ofTokens (tokens ++ after)).stream.second.kind == kind) = false := by
  rw [Bool.and_eq_false_iff, beq_eq_false_iff_ne, beq_eq_false_iff_ne]
  cases starts with
  | name =>
    obtain ⟨token, _, rfl, _, spelled⟩ := spelled.uncons
    obtain rfl := spelled.eq_nil
    obtain ⟨next, rest, rfl, other⟩ := other
    exact .inr other
  | continued continues =>
    obtain ⟨token, _, rfl, _, spelled⟩ := spelled.uncons
    obtain ⟨second, _, rfl, ⟨_, isMark, _⟩, _⟩ := spelled.uncons
    refine .inr fun same => ?_
    obtain rfl := isMark.symm.trans same
    rw [Option.isSome_iff_ne_none] at continues
    exact continues none
  | literal =>
    obtain ⟨token, _, rfl, ⟨_, literal, _⟩, _⟩ := spelled.uncons
    refine .inl fun same => ?_
    rw [show token.kind = .ident from same] at literal
    cases literal
  | keyword | unary | paren | bracket | brace =>
    obtain ⟨token, _, rfl, ⟨_, kind, _⟩, _⟩ := spelled.uncons
    refine .inl fun same => ?_
    cases kind.symm.trans same

end Parse

end Skiff
