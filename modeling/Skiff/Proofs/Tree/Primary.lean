import Skiff.Proofs.Tree.Yields

/-!
# Reading primary expressions

The tokens of a printed expression that has no operand before its first token are read as the same
expression, provided that the parsers of what is nested in it do the same.
-/

namespace Skiff

open Expr

namespace Parse

/-- The parsers of nested constructs read printed trees from as many tokens as they have levels. -/
structure Nested.Rereads (nested : Nested) : Prop where
  expr {expr : Expr} {least : Level} {count : Nat} :
    expr.Proper → least.toNat ≤ expr.level.toNat → count ≤ nested.fuel →
    Takes count (·.Ends least.toNat) (nested.expr least) expr.pieces (·.bare = expr.bare)
  block {body : Block} {count : Nat} {follows : Token → Prop} : body.Proper → count ≤ nested.fuel →
    Takes count follows nested.block body.pieces (·.bare = body.bare)
  cond {span : Span} {init : Option Stmt} {test : Expr} {yes : Block} {no : Option Stmt}
      {count : Nat} :
    Stmt.Proper (.cond span init test yes no) → count ≤ nested.fuel →
    Takes count (·.kind ≠ .keyword .else_) nested.cond (Stmt.pieces (.cond span init test yes no))
      (·.bare = Stmt.bare (.cond span init test yes no))

section expressions
variable {nested : Nested} {count : Nat} {follows : Token → Prop} {expr inner : Expr} {span : Span}

variable {token : Token} {name : String} {body : Block} {close : Mark} {β : Type}
  {names : List Ident} {variadic : Bool}

theorem Nested.Rereads.lowest (rereads : nested.Rereads) (proper : expr.Proper)
    (le : count ≤ nested.fuel) :
    Takes count (·.kind.continuation? = none) (nested.expr .lowest) expr.pieces
      (·.bare = expr.bare) :=
  (rereads.expr proper (Nat.zero_le _) le).before fun _ => Token.ends_of_none

/-- Behind an item of a list stands a comma or the closing mark. -/
def endsItem (close : Mark) (token : Token) : Prop :=
  token.kind = .mark .comma ∨ token.kind = .mark close

/-- Neither a comma nor a closing mark continues an expression. -/
theorem endsItem.stops (none : close.continuation? = none) (ends : endsItem close token) :
    token.kind.continuation? = Option.none := by
  rcases ends with kind | kind
  · rw [kind]
    rfl
  · rw [kind]
    exact none

/-- Items are read one by one up to the closing mark. What has been read fits what is still to come,
and every item keeps that. -/
theorem commaSeparated_takes {α : Type} {item : α → Parse α} {pieces : β → List Piece} {bound : Nat}
    (fits : α → List β → Prop) (notComma : close ≠ .comma)
    (starts : ∀ x, First (pieces x) (fun _ => True) fun token => token.kind ≠ .mark close ∧
      token.kind ≠ .endOfFile)
    (step : ∀ done x xs, fits done (x :: xs) → Takes bound (endsItem close) (item done) (pieces x)
      (fits · xs))
    {xs : List β} {done : α} (start : fits done xs) (le : count ≤ bound) :
    Takes count (·.kind = .mark close) (commaSeparated close item bound done)
      (commaList (xs.map pieces)) (fits · []) := by
  suffices loop : ∀ fuel count, count ≤ fuel → count ≤ bound → Takes count (·.kind = .mark close)
      (commaSeparated close item fuel done) (commaList (xs.map pieces)) (fits · []) from
    loop bound count le le
  intro fuel
  induction fuel generalizing xs done with
  | zero => exact fun count enough _ => .vacuous enough
  | succ fuel ih =>
    intro count enough within
    have step' (done x xs fits) := (step done x xs fits).fewer within
    cases xs with
    | nil => exact .isNext (.nil fun _ => id) (.pure start)
    | cons x xs =>
      have goOn {others : List Piece} (read : Takes count (·.kind = .mark close)
          (item done >>= fun done' => acceptMark .comma >>= fun more =>
            if more = true then commaSeparated close item fuel done' else pure done')
          (pieces x ++ others) (fits · [])) :
          Takes count (·.kind = .mark close) (commaSeparated close item (fuel + 1) done)
            (pieces x ++ others) (fits · []) :=
        .isOther ((starts x).append.imp fun _ => And.left)
          (.isOther ((starts x).append.imp fun _ => And.right) read)
      cases xs with
      | nil =>
        rw [show commaList ([x].map pieces) = pieces x ++ [] from (List.append_nil _).symm]
        refine goOn ((step' done x [] start).bind (.nil fun _ => .inr) fun done' fits' => ?_)
        exact .refuse (.nil fun _ closes => by simpa [closes] using notComma) (.pure fits')
      | cons y ys =>
        refine goOn
          ((step' done x (y :: ys) start).bind (.known rfl fun _ => .inl) fun done' fits' => ?_)
        exact .accept rfl (ih fits' _ (by omega) (by omega))

/-! ## Single tokens -/

theorem literal_takes {value : Literal} : Takes count follows (primaryExpr nested)
    (pieces (.literal span value)) (·.bare = bare (.literal span value)) := by
  rw [pieces]
  refine .peek Token.kind nextKind_eq (.cons fun _ spells => spells.2.1) fun token isLiteral => ?_
  split
  case h_9 =>
    rw [if_pos isLiteral]
    refine .advance fun token spells => ?_
    rw [spells.2.2]
    exact .pure (by simp [bare])
  all_goals
    next other =>
      rw [other] at isLiteral
      cases isLiteral

theorem name_takes : Takes count follows (primaryExpr nested)
    (pieces (.name span name)) (·.bare = bare (.name span name)) := by
  rw [pieces]
  refine .nextKind rfl (.advance fun token spells => ?_)
  exact .pure (by simp [bare, spells.2.2])

theorem quotedText_takes {pieces : List Piece} {next : String → Parse β} {final : β → Prop}
    (decoded : Literal.readString token.text.toList = .ok name)
    (second : Takes count follows (next name) pieces final) :
    Takes count follows (quotedText token >>= next) pieces final := by
  unfold quotedText
  rw [decoded]
  exact second

theorem import_takes : Takes count follows (primaryExpr nested)
    (pieces (.importModule span name)) (·.bare = bare (.importModule span name)) := by
  rw [pieces]
  refine .nextKind rfl (.advance fun _ _ => .skipExpect rfl ?_)
  refine .expect rfl fun _ spells => quotedText_takes spells.2.2 (.expect rfl fun _ _ => ?_)
  exact .pure (by simp [bare])

/-! ## Constructs with parts -/

theorem paren_takes (rereads : nested.Rereads) (proper : inner.Proper)
    (le : count ≤ nested.fuel + 1) :
    Takes count follows (primaryExpr nested) (pieces (.paren span inner))
      (·.bare = bare (.paren span inner)) := by
  rw [pieces]
  refine .nextKind rfl (.advance fun _ _ => ?_)
  refine (rereads.lowest proper (by omega)).bind (.stops rfl rfl) fun inner' same => ?_
  exact .expect rfl fun _ _ => .pure (by simp [bare, same])

theorem array_takes (rereads : nested.Rereads) {items : List Expr}
    (proper : ∀ item ∈ items, item.Proper) (le : count ≤ nested.fuel + 1) :
    Takes count follows (primaryExpr nested) (pieces (.array span items))
      (·.bare = bare (.array span items)) := by
  rw [pieces, allPieces_eq]
  refine .nextKind rfl (.advance fun _ _ => ?_)
  refine (commaSeparated_takes (fun (done : Array Expr) (left : List Expr) =>
    (∀ item ∈ left, item.Proper) ∧ done.toList.map bare ++ left.map bare = items.map bare)
    (by decide) (fun item => ?_) ?_ ⟨proper, by simp⟩ (by omega)).bind (.known rfl fun _ => id) ?_
  · exact (starts_pieces item).first.imp fun _ starts =>
      ⟨startsExpr_ne starts.1 rfl, startsExpr_ne starts.1 rfl⟩
  · intro done item left fits
    refine ((rereads.lowest (fits.1 item (by simp)) (Nat.le_refl _)).before
      fun _ => endsItem.stops rfl).last fun item' same => ?_
    refine .pure ⟨fun other member => fits.1 other (by simp [member]), ?_⟩
    simpa [same] using fits.2
  · intro items' fits
    exact .expect rfl fun _ _ => .pure (by simpa [bare] using fits.2)

theorem mapKey_ofTokens {key : String} {tokens : List Token} (more : tokens ≠ [])
    (spells : (Piece.key key).Spells token) :
    mapKey (.ofTokens (token :: tokens)) = .ok ⟨key, token.span⟩ (.ofTokens tokens) := by
  refine (bind_ok (advance_ofTokens more)).trans ?_
  obtain ⟨_, ⟨kind, text⟩ | ⟨kind, text⟩ | ⟨kind, text⟩⟩ := spells
  · rw [kind, text]
    rfl
  · rw [kind]
    dsimp only
    unfold quotedText
    rw [text]
    rfl
  · rw [kind, text]
    rfl

theorem map_takes (rereads : nested.Rereads) {entries : List Entry}
    (proper : ∀ entry ∈ entries, entry.value.Proper) (le : count ≤ nested.fuel + 1) :
    Takes count follows (primaryExpr nested) (pieces (.map span entries))
      (·.bare = bare (.map span entries)) := by
  rw [pieces, Entry.allPieces_eq]
  refine .nextKind rfl (.expect rfl fun _ _ => ?_)
  refine (commaSeparated_takes (fun (done : Array Entry) (left : List Entry) =>
    (∀ entry ∈ left, entry.value.Proper) ∧
      done.toList.map Entry.bare ++ left.map Entry.bare = entries.map Entry.bare)
    (by decide) (fun entry => ?_) ?_ ⟨proper, by simp⟩ (by omega)).bind (.known rfl fun _ => id) ?_
  · obtain ⟨key, keySpan, value⟩ := entry
    rw [Entry.pieces]
    refine .cons fun token spells => ?_
    obtain ⟨_, ⟨kind, _⟩ | ⟨kind, _⟩ | ⟨kind, _⟩⟩ := spells <;> simp [kind]
  · intro done entry left fits
    obtain ⟨key, keySpan, value⟩ := entry
    rw [Entry.pieces]
    refine .token (fun _ _ => mapKey_ofTokens) fun _ _ => .skipExpect rfl ?_
    refine ((rereads.lowest (fits.1 _ (.head _)) (by omega)).before
      fun _ => endsItem.stops rfl).last fun value' same => ?_
    refine .pure ⟨fun other member => fits.1 other (by simp [member]), ?_⟩
    simpa [Entry.bare, same, Entry.value] using fits.2
  · intro entries' fits
    exact .expect rfl fun _ _ => .pure (by simpa [bare] using fits.2)

/-- Parameters are read up to the closing parenthesis. -/
theorem params_takes (nonempty : variadic = true → names ≠ []) {fuel : Nat} (enough : count ≤ fuel)
    (done : Array Ident) :
    Takes count (·.kind = .mark .rightParen) (params fuel done)
      (commaList (names.map fun name => [.ident name.name]) ++ dots variadic) fun read =>
      read.1.toList.map Ident.bare = done.toList.map Ident.bare ++ names.map Ident.bare ∧
        read.2 = variadic := by
  induction fuel generalizing names count done with
  | zero => exact .vacuous enough
  | succ fuel ih =>
    unfold params
    cases names with
    | nil =>
      have notVariadic : variadic = false := by
        cases variadic with
        | false => rfl
        | true => exact absurd rfl (nonempty rfl)
      subst notVariadic
      exact .isNext (.nil fun _ => id) (.pure ⟨by simp, rfl⟩)
    | cons name names =>
      have goOn {others : List Piece} {final : Array Ident × Bool → Prop}
          (read : ∀ name' : Ident, name'.bare = name.bare →
            Takes (count - 1) (·.kind = .mark .rightParen) (acceptMark .ellipsis >>= fun spread =>
              if spread = true then pure (done.push name', true) else acceptMark .comma >>=
                fun more =>
              if more = true then params fuel (done.push name') else pure (done.push name', false))
            others final) :
          Takes count (·.kind = .mark .rightParen) (params (fuel + 1) done)
            (.ident name.name :: others) final := by
        refine .isOther (.known rfl fun _ kind => by simp [kind]) ?_
        refine .isOther (.known rfl fun _ kind => by simp [kind]) ?_
        exact .ident fun name' same => read name' (by simp [Ident.bare, same])
      cases names with
      | nil =>
        refine goOn fun name' same => ?_
        cases variadic with
        | true => exact .accept rfl (.pure ⟨by simp [same], rfl⟩)
        | false =>
          refine .refuse (.nil fun _ kind => by simp [kind]) ?_
          refine .refuse (.nil fun _ kind => by simp [kind]) ?_
          exact .pure ⟨by simp [same], rfl⟩
      | cons second names =>
        refine goOn fun name' same => ?_
        refine .refuse (.known rfl fun _ kind => by simp [kind]) (.accept rfl ?_)
        exact (ih (fun _ => List.cons_ne_nil second names) (by omega) _).imp fun read given =>
          ⟨by simp [given.1, same], given.2⟩

theorem func_takes (rereads : nested.Rereads) (nonempty : variadic = true → names ≠ [])
    (proper : body.Proper) (le : count ≤ nested.fuel + 1) :
    Takes count follows (primaryExpr nested) (pieces (.func span names variadic body))
      (·.bare = bare (.func span names variadic body)) := by
  rw [pieces]
  refine .nextKind rfl (.expect rfl fun _ _ => .skipExpect rfl ?_)
  refine (params_takes nonempty (by omega) #[]).bind (.known rfl fun _ => id) ?_
  rintro ⟨names', variadic'⟩ ⟨same, rfl⟩
  refine .skipExpect rfl ((rereads.block proper (by omega)).last fun body' sameBody => ?_)
  exact .pure (by simpa [bare, sameBody] using same)

/-- An expression in parentheses behind a keyword. -/
theorem wrapped_takes (rereads : nested.Rereads) {build : Span → Expr → Expr}
    (proper : inner.Proper) {piece : Piece} (le : count ≤ nested.fuel + 1) {bare : Expr}
    (built : ∀ span inner', inner'.bare = inner.bare → (build span inner').bare = bare) :
    Takes count follows (wrappedExpr nested build)
      (piece :: .mark .leftParen :: inner.pieces ++ [.mark .rightParen]) (·.bare = bare) := by
  refine .advance fun _ _ => .skipExpect rfl ?_
  refine (rereads.lowest proper (by omega)).bind (.stops rfl rfl) fun inner' same => ?_
  exact .expect rfl fun _ _ => .pure (built _ _ same)

/-- The expressions that are read without an operand before them. -/
def isPrimary : Expr → Bool
  | .literal .. | .name .. | .array .. | .map .. | .func .. | .paren .. | .error .. | .immutable ..
  | .importModule .. => true
  | _ => false

section
variable (rereads : nested.Rereads) (proper : expr.Proper) (primary : isPrimary expr = true)
  (le : count ≤ nested.fuel + 1)
include rereads proper primary le

theorem primaryExpr_takes :
    Takes count follows (primaryExpr nested) expr.pieces (·.bare = expr.bare) := by
  cases proper with
  | literal => exact literal_takes
  | name => exact name_takes
  | array proper => exact array_takes rereads proper le
  | map proper => exact map_takes rereads proper le
  | func nonempty proper => exact func_takes rereads nonempty proper le
  | paren proper => exact paren_takes rereads proper le
  | error proper | immutable proper =>
    rw [pieces]
    refine .nextKind rfl (wrapped_takes rereads proper le fun span' inner' same => ?_)
    simp [bare, same]
  | importModule => exact import_takes
  | unary | binary | cond | call | index | select | slice => cases primary

theorem unaryExpr_takes :
    Takes count follows (unaryExpr nested) expr.pieces (·.bare = expr.bare) := by
  have notUnary : First expr.pieces follows (·.kind.unary? = none) := by
    cases expr <;> cases primary <;> rw [pieces]
    case literal =>
      refine .cons fun token spells => ?_
      obtain ⟨_, literal, _⟩ := spells
      cases kind : token.kind with
      | mark => rw [kind] at literal; cases literal
      | _ => rfl
    all_goals exact .known rfl fun _ kind => kind ▸ rfl
  refine .peek Token.kind nextKind_eq notUnary fun token none => ?_
  rw [none]
  exact primaryExpr_takes rereads proper primary le

end

end expressions

end Parse

end Skiff
