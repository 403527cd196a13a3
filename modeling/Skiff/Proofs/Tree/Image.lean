import Skiff.Proofs.Tree.Proper
import Skiff.Proofs.Tree.Reads

/-!
# Reading expressions

Every expression that is read is proper and stands where its tokens do. An operand is continued as
long as the next token binds tightly enough, so what comes behind a finished expression binds more
loosely than its last operand asks for, and this decides the levels of the operands around it. The
number of tokens left bounds every loop, so no loop stops too early.
-/

namespace Skiff

open List Node

/-- Whether the next token is a left brace. -/
def ParseState.braced (state : ParseState) : Bool := state.stream.next.kind == .mark .leftBrace

namespace Parse

/-- A proper expression whose outermost operator binds at `least` or tighter, and behind which
nothing binds at `bound` or tighter. -/
structure ReadExpr (reading : Reading) (count lo least bound : Nat) (brace : Bool) (expr : Expr)
    (state : ParseState) : Prop where
  proper : expr.Proper
  level : least ≤ expr.level.toNat
  braced : expr.braced = brace
  ends : state.stream.next.Ends bound
  passes : reading.Passes count lo [.expr expr] state

/-- An expression that can be continued by everything. -/
structure ReadPrimary (reading : Reading) (count lo : Nat) (brace : Bool) (expr : Expr)
    (state : ParseState) : Prop where
  proper : expr.Proper
  level : expr.level = .access
  limit : expr.limit = Level.access.toNat
  braced : expr.braced = brace
  passes : reading.Passes count lo [.expr expr] state

variable {brace : Bool} {α : Type} {fallen : ParseState → Prop} {least : Level}

theorem ReadPrimary.read {reading : Reading} {count lo least : Nat} {expr : Expr}
    {state : ParseState}
    (primary : ReadPrimary reading count lo brace expr state) (le : least ≤ Level.access.toNat) :
    ReadExpr reading count lo least (expr.limit + 1) brace expr state where
  proper := primary.proper
  level := by rw [primary.level]; exact le
  braced := primary.braced
  ends continuation _ _ := by
    rw [primary.limit]
    exact Nat.lt_succ_of_le (Level.toNat_le_access _)
  passes := primary.passes

/-- The parsers of nested constructs read proper trees from as many tokens as they have levels. -/
structure Nested.Sound (nested : Nested) : Prop where
  expr {reading : Reading} {count lo : Nat} {state : ParseState} (least : Level)
    (here : reading.At count lo state) (le : count ≤ nested.fuel)
    (loose : least.toNat ≤ Level.unary.toNat) :
    Reads reading.Fallen state (nested.expr least)
      (ReadExpr reading (count - 1) lo least.toNat least.toNat state.braced)
  block {reading : Reading} {count lo : Nat} {state : ParseState} (here : reading.At count lo state)
    (le : count ≤ nested.fuel) :
    Reads reading.Fallen state nested.block fun body after =>
      body.Proper ∧ reading.Passes (count - 1) lo [.block body] after
  cond {reading : Reading} {count lo : Nat} {state : ParseState} (here : reading.At count lo state)
    (le : count ≤ nested.fuel) :
    Reads reading.Fallen state nested.cond fun stmt after =>
      (stmt.Proper ∧ stmt.isAlternative = true) ∧ reading.Passes (count - 1) lo [.stmt stmt] after

variable {reading : Reading} {nested : Nested} {count lo mid mid' : Nat} {state : ParseState}

theorem Nested.Sound.lowest (sound : nested.Sound) (here : reading.At count lo state)
    (le : count ≤ nested.fuel) :
    Reads reading.Fallen state (nested.expr .lowest) fun expr after =>
      expr.Proper ∧ reading.Passes (count - 1) lo [.expr expr] after :=
  (sound.expr .lowest here le (by decide)).imp fun _ _ read => ⟨read.proper, read.passes⟩

/-- What is known at the start of a list and kept by every item is known at its end. -/
theorem commaSeparated_reads {close : Mark} {item : α → Parse α} {fuel : Nat} {done : α}
    (known : α → ParseState → Prop) (start : known done state)
    (step : ∀ done state, known done state → state.stream.next.kind ≠ .mark close →
      Reads fallen state (item done) known)
    (comma : ∀ done state, known done state → state.stream.next.kind = .mark .comma →
      known done state.advance) :
    Reads fallen state (commaSeparated close item fuel done) known := by
  induction fuel generalizing done state with
  | zero => exact .pure start
  | succ fuel ih =>
    unfold commaSeparated
    refine .step (isNextMark_eq close state) ?_
    by_cases closing : state.stream.next.kind = .mark close
    · rw [beq_iff_eq.2 closing]
      exact .pure start
    rw [beq_eq_false_iff_ne.2 closing]
    refine .step (isNext_eq _ state) ?_
    split
    · exact .pure start
    refine (step done state start closing).bind fun done' after known' => ?_
    by_cases more : after.stream.next.kind = .mark .comma
    · exact .step (accept_eq more) (ih (comma done' after known' more))
    · exact .step (accept_missing more) (.pure known')

/-! ## Primary expressions -/

theorem quotedText_reads (token : Token)
    (fails : ∀ error, fallen { state with errors := state.errors.push error }) :
    Reads fallen state (quotedText token) fun text after =>
      Literal.readString token.text.toList = .ok text ∧ after = state := by
  unfold quotedText
  cases Literal.readString token.text.toList with
  | error cause => exact .failed rfl (fails _)
  | ok text => exact .pure ⟨rfl, rfl⟩

theorem ident_reads (here : reading.At count lo state) :
    Reads reading.Fallen state ident fun name after =>
      after = state.advance ∧ reading.Passes (count - 1) lo [.ident name] after := by
  refine .expect here (by decide) fun hi isName row behind => .pure ⟨rfl, hi, ?_, behind⟩
  exact row.recast rfl (nil_sublist _) (here.named _ (mem_cons_self ..) isName)

theorem literal_reads (here : reading.At count lo state)
    (isLiteral : state.stream.next.kind.isLiteral = true) :
    Reads reading.Fallen state literal (ReadPrimary reading (count - 1) lo false) := by
  have other : state.stream.next.kind ≠ .mark .rightBrace := by
    intro isBrace
    rw [isBrace] at isLiteral
    cases isLiteral
  refine .advance here other fun hi row behind => ?_
  cases value : literalValue state.stream.next with
  | error cause => exact .fail behind _
  | ok value' =>
    refine .pure ⟨?_, rfl, rfl, rfl, hi, row.recast rfl (nil_sublist _) trivial, behind⟩
    exact .literal { state.stream.next with newlineBefore := false } ⟨rfl, isLiteral, value⟩

theorem arrayExpr_reads (sound : nested.Sound) (here : reading.At count lo state)
    (le : count ≤ nested.fuel + 1) (starts : state.stream.next.kind = .mark .leftBracket) :
    Reads reading.Fallen state (arrayExpr nested) (ReadPrimary reading (count - 1) lo false) := by
  refine .advance here (by simp [starts]) fun mid opened behind => ?_
  refine (commaSeparated_reads (fun (items : Array Expr) state =>
    (∀ item ∈ items.toList, item.Proper) ∧
      reading.Passes (count - 1) mid (items.toList.map .expr) state)
    ⟨by simp, mid, .none, behind⟩ ?_ ?_).bind ?_
  · rintro done state ⟨proper, place, row, here⟩ -
    refine (sound.lowest here (by omega)).bind ?_
    rintro item after ⟨itemProper, last, itemRow, behind⟩
    refine .pure ⟨?_, last, ?_, behind.pred⟩
    · simpa [or_imp, forall_and] using And.intro proper itemProper
    · simpa using row.append itemRow
  · rintro done state ⟨proper, passes⟩ isComma
    exact ⟨proper, passes.skip (by simp [isComma])⟩
  · rintro items after ⟨proper, place, row, here⟩
    refine .expect here (by decide) fun hi _ closed behind => ?_
    refine .pure ⟨.array proper, rfl, rfl, rfl, hi, ?_, behind.pred⟩
    exact opened.wrap row closed rfl ((sublist_append_left _ _).cons _) trivial

theorem mapKey_reads (here : reading.At count lo state)
    (other : state.stream.next.kind ≠ .mark .rightBrace) :
    Reads reading.Fallen state mapKey fun key after =>
      reading.Passes (count - 1) lo [.leaf key.span] after := by
  refine .advance here other fun hi row behind => ?_
  split
  · exact .pure ⟨hi, row, behind⟩
  · refine (quotedText_reads _ behind.fallen).bind ?_
    rintro text after ⟨-, rfl⟩
    exact .pure ⟨hi, row, behind⟩
  · exact .pure ⟨hi, row, behind⟩
  · exact .fail behind _

/-- Between braces one more of them is open. -/
def Reading.inner (reading : Reading) (total : Nat) : Reading :=
  { reading with base := reading.base + 1, total }

theorem Reading.Fallen.outer {total : Nat} (fallen : (reading.inner total).Fallen state)
    (roomy : roof reading.limit reading.base ≤ reading.errors) (fewer : total ≤ reading.total) :
    reading.Fallen state := by
  obtain ⟨lo, here⟩ := fallen
  obtain ⟨depth, low, deep⟩ := here.deep
  have all := Nat.le_trans here.all fewer
  exact ⟨lo, { here with
    few := all
    all
    deep := ⟨depth, Nat.le_of_succ_le low, deep⟩
    roomy := Nat.le_succ_of_le roomy }⟩

/-- What stands between braces is nested one deeper. -/
theorem braces_reads {β : Type} {body : Parse α} (build : Span → α → β) (node : β → Node)
    (good : α → Prop) (nodes : α → List Node) (here : reading.At count lo state)
    (reads : ∀ {total lo state}, total ≤ count - 1 → (reading.inner total).At total lo state →
      Reads (reading.inner total).Fallen state body fun value after => good value ∧
      (reading.inner total).Passes total lo (nodes value) after)
    (built : ∀ span value, (node (build span value)).span = span ∧
      (node (build span value)).parts = nodes value ∧
        (node (build span value)).Named reading.layout) :
    Reads reading.Fallen state (do
      let start ← expectMark .leftBrace
      let value ← body
      let stop ← expectMark .rightBrace
      return build (start.span.merge stop.span) value) fun result after =>
        (∃ span value, result = build span value ∧ good value) ∧
          reading.Passes (count - 1) lo [node result] after := by
  by_cases starts : state.stream.next.kind = .mark .leftBrace
  · refine .step (expect_eq starts) ?_
    obtain ⟨mid, opened, inside⟩ := here.step (reading.base + 1)
      (fun depth low => by rw [starts]; exact Nat.succ_le_succ low)
      (Nat.le_trans (roof_anti _ (Nat.le_succ _)) here.roomy)
    have fewer := inside.all
    have inner : (reading.inner state.advance.stream.rest.length).At _ mid state.advance :=
      { inside with few := Nat.le_refl _, all := Nat.le_refl _ }
    refine ((reads inside.few inner).mono (fun _ fallen => fallen.outer here.roomy fewer)
      fun _ _ => id).bind ?_
    rintro value after ⟨holds, place, row, behind⟩
    by_cases ends : after.stream.next.kind = .mark .rightBrace
    · refine .step (expect_eq ends) (.pure ⟨⟨_, _, rfl, holds⟩, ?_⟩)
      obtain ⟨hi, closed, outside⟩ := behind.step reading.base (fun depth low =>
        Nat.le_trans (Nat.le_sub_of_add_le low) (Kind.pred_le_nest _ _)) here.roomy
      obtain ⟨same, parts, named⟩ :=
        built (state.stream.next.span.merge after.stream.next.span) value
      refine ⟨hi, opened.wrap row closed same ?_ named, ?_⟩
      · rw [parts]
        exact (sublist_append_left _ _).cons _
      · exact { outside with
          few := Nat.le_trans outside.all inside.few
          all := Nat.le_trans outside.all fewer }
    · obtain ⟨error, run⟩ := expect_missing ends
      exact .failed (bind_error run) ((behind.fallen error).outer here.roomy fewer)
  · obtain ⟨error, run⟩ := expect_missing starts
    exact .failed (bind_error run) (here.fallen error)

theorem mapEntry_reads (sound : nested.Sound) (le : count ≤ nested.fuel) (entries : Array Entry)
    (proper : ∀ entry ∈ entries.toList, entry.value.Proper)
    (passes : reading.Passes count lo (entries.toList.flatMap ofEntry) state)
    (other : state.stream.next.kind ≠ .mark .rightBrace) :
    Reads reading.Fallen state (mapEntry nested entries) fun entries after =>
      (∀ entry ∈ entries.toList, entry.value.Proper) ∧
        reading.Passes count lo (entries.toList.flatMap ofEntry) after := by
  obtain ⟨place, row, here⟩ := passes
  refine (mapKey_reads here other).bind ?_
  rintro key after ⟨mid, keyRow, behind⟩
  refine .skipExpect behind (by decide) fun behind => ?_
  refine (sound.lowest behind (by omega)).bind ?_
  rintro value after ⟨valueProper, last, valueRow, behind⟩
  refine .pure ⟨?_, last, ?_, behind.mono (by omega)⟩
  · simpa [or_imp, forall_and, Entry.value] using And.intro proper valueProper
  · simpa [ofEntry] using row.append (keyRow.append valueRow)

/-- Dots stand behind a parameter. -/
theorem params_reads (fuel : Nat) (done : Array Ident)
    (passes : reading.Passes count lo (done.toList.map .ident) state) :
    Reads reading.Fallen state (params fuel done) fun read after =>
      (read.2 = true → read.1.toList ≠ []) ∧
        reading.Passes count lo (read.1.toList.map .ident) after := by
  induction fuel generalizing done state with
  | zero => exact .pure ⟨by simp, passes⟩
  | succ fuel ih =>
    unfold params
    refine .step (isNextMark_eq _ _) ?_
    split
    · exact .pure ⟨by simp, passes⟩
    refine .step (isNext_eq _ _) ?_
    split
    · exact .pure ⟨by simp, passes⟩
    obtain ⟨place, row, here⟩ := passes
    refine (ident_reads here).bind ?_
    rintro name after ⟨-, last, nameRow, behind⟩
    have row : Row reading.layout lo last ((done.push name).toList.map .ident) := by
      simpa using row.append nameRow
    have more {state : ParseState} (behind : reading.At (count - 1 - 1) last state) :
        reading.Passes count lo ((done.push name).toList.map .ident) state :=
      ⟨last, row, behind.mono (by omega)⟩
    refine .accept behind (by decide) (fun _ behind => .pure ⟨by simp, more behind⟩) fun _ => ?_
    refine .accept behind (by decide) (fun _ behind => ih _ (more behind)) fun _ => ?_
    exact .pure ⟨by simp, last, row, behind.pred⟩

theorem importExpr_reads (here : reading.At count lo state)
    (other : state.stream.next.kind ≠ .mark .rightBrace) :
    Reads reading.Fallen state importExpr (ReadPrimary reading (count - 1) lo false) := by
  refine .advance here other fun mid start behind => ?_
  refine .skipExpect behind (by decide) fun behind => ?_
  refine .expect behind (by decide) fun place isString row behind => ?_
  refine (quotedText_reads _ behind.fallen).bind ?_
  rintro name after ⟨spelled, rfl⟩
  refine .expect behind (by decide) fun hi _ closed behind => .pure ?_
  refine ⟨?_, rfl, rfl, rfl, hi, start.wrap row closed rfl (nil_sublist _) trivial,
    behind.mono (by omega)⟩
  exact .importModule { state.advance.advance.stream.next with newlineBefore := false }
    ⟨rfl, isString, spelled⟩

section
variable (sound : nested.Sound) (here : reading.At count lo state) (le : count ≤ nested.fuel + 1)
include sound here le

theorem mapExpr_reads :
    Reads reading.Fallen state (mapExpr nested) (ReadPrimary reading (count - 1) lo true) := by
  refine (braces_reads (fun span (entries : Array Entry) => Expr.map span entries.toList) .expr
    (fun entries => ∀ entry ∈ entries.toList, entry.value.Proper)
    (fun entries => entries.toList.flatMap ofEntry) here (fun {total lo state} few inside => ?_)
    fun _ _ => ⟨rfl, rfl, trivial⟩).imp ?_
  · exact commaSeparated_reads _ ⟨by simp, lo, .none, inside⟩
      (fun entries _ known other => mapEntry_reads sound (by omega) entries known.1 known.2 other)
      fun _ _ known isComma => ⟨known.1, known.2.skip (by simp [isComma])⟩
  · rintro expr after ⟨⟨span, entries, rfl, proper⟩, passes⟩
    exact ⟨.map proper, rfl, rfl, rfl, passes⟩

theorem funcExpr_reads :
    Reads reading.Fallen state (funcExpr nested) (ReadPrimary reading (count - 1) lo false) := by
  refine .expect here (by decide) fun mid _ start behind => ?_
  refine .skipExpect behind (by decide) fun behind => ?_
  refine (params_reads nested.fuel #[] ⟨mid, .none, behind⟩).bind ?_
  rintro ⟨names, variadic⟩ after ⟨dots, place, row, behind⟩
  refine .skipExpect behind (by decide) fun behind => ?_
  refine (sound.block behind (by omega)).bind ?_
  rintro body after ⟨proper, hi, bodyRow, behind⟩
  refine .pure ⟨.func dots proper, rfl, rfl, rfl, hi, ?_, behind.mono (by omega)⟩
  exact start.wrap row bodyRow rfl ((Sublist.refl _).cons _) trivial

theorem wrappedExpr_reads (other : state.stream.next.kind ≠ .mark .rightBrace)
    {build : Span → Expr → Expr}
    (built : ∀ span inner, inner.Proper → (build span inner).Proper ∧
      (build span inner).level = .access ∧
      (build span inner).limit = Level.access.toNat ∧ (build span inner).braced = false)
    (node : ∀ span inner, (build span inner).span = span ∧
      ofExpr (build span inner) = [.expr inner] ∧
      (Node.expr (build span inner)).Named reading.layout) :
    Reads reading.Fallen state (wrappedExpr nested build)
      (ReadPrimary reading (count - 1) lo false) := by
  refine .advance here other fun mid start behind => ?_
  refine .skipExpect behind (by decide) fun behind => ?_
  refine (sound.lowest behind (by omega)).bind ?_
  rintro inner after ⟨innerProper, place, row, behind⟩
  refine .expect behind (by decide) fun hi _ closed behind => .pure ?_
  obtain ⟨proper, level, limit, braced⟩ :=
    built (state.stream.next.span.merge after.stream.next.span) inner innerProper
  obtain ⟨same, parts, named⟩ := node (state.stream.next.span.merge after.stream.next.span) inner
  refine ⟨proper, level, limit, braced, hi, start.wrap row closed same ?_ named,
    behind.mono (by omega)⟩
  change (ofExpr _).Sublist _
  rw [parts]
  exact (sublist_append_left _ _).cons _

theorem primaryExpr_reads :
    Reads reading.Fallen state (primaryExpr nested)
      (ReadPrimary reading (count - 1) lo state.braced) := by
  refine .step (nextKind_eq state) ?_
  unfold ParseState.braced
  generalize found : state.stream.next.kind = kind
  split
  · refine .advance here (by simp [found]) fun hi row behind => ?_
    refine .pure ⟨.name, rfl, rfl, rfl, hi, row.recast rfl (nil_sublist _) ?_, behind⟩
    exact here.named _ (mem_cons_self ..) found
  · refine .advance here (by simp [found]) fun mid start behind => ?_
    refine (sound.lowest behind (by omega)).bind ?_
    rintro inner after ⟨proper, place, row, behind⟩
    refine .expect behind (by decide) fun hi _ closed behind => .pure ?_
    refine ⟨.paren proper, rfl, rfl, rfl, hi, ?_, behind.mono (by omega)⟩
    exact start.wrap row closed rfl ((sublist_append_left _ _).cons _) trivial
  · exact arrayExpr_reads sound here le found
  · exact mapExpr_reads sound here le
  · exact funcExpr_reads sound here le
  · exact wrappedExpr_reads sound here le (by simp [found])
      (fun _ _ proper => ⟨.error proper, rfl, rfl, rfl⟩) fun _ _ => ⟨rfl, rfl, trivial⟩
  · exact wrappedExpr_reads sound here le (by simp [found])
      (fun _ _ proper => ⟨.immutable proper, rfl, rfl, rfl⟩) fun _ _ => ⟨rfl, rfl, trivial⟩
  · exact importExpr_reads here (by simp [found])
  next noBrace _ _ _ _ =>
    have plain : (kind == .mark .leftBrace) = false := beq_eq_false_iff_ne.2 noBrace
    rw [plain]
    split
    next isLiteral => exact literal_reads here (found ▸ isLiteral)
    next => exact .unexpected here _

theorem unaryExpr_reads :
    Reads reading.Fallen state (unaryExpr nested) fun expr =>
      ReadExpr reading (count - 1) lo Level.unary.toNat (expr.limit + 1) state.braced expr := by
  refine .step (nextKind_eq state) ?_
  split
  next op isUnary =>
    have notBrace {mark : Mark} (found : state.stream.next.kind = .mark mark)
        (plain : mark.unary? = none) : False := by
      rw [found] at isUnary
      cases plain.symm.trans isUnary
    have plain : state.braced = false := beq_eq_false_iff_ne.2 fun found => notBrace found rfl
    refine .advance here (fun found => notBrace found rfl) fun mid start behind => ?_
    refine (sound.expr .unary behind (by omega) (by decide)).bind ?_
    rintro operand after ⟨proper, level, -, ends, hi, row, behind⟩
    refine .pure ⟨.unary level proper, Nat.le_refl _, plain.symm, ends, hi, ?_, behind.pred⟩
    exact start.wrap .none row rfl ((List.Sublist.refl _).cons _) trivial
  next => exact (primaryExpr_reads sound here le).imp fun _ _ read => read.read (by decide)

end

/-! ## Continued expressions -/

namespace ArgList

/-- The arguments read so far are proper and stand where they may. -/
structure Proper (args : ArgList) : Prop where
  positional : ∀ arg ∈ args.positional.toList, arg.Proper
  named : ∀ arg ∈ args.named.toList, arg.value.Proper
  namedSpread : ∀ arg ∈ args.namedSpread, arg.Proper
  spread : args.spread = true → args.positional.toList ≠ []
  closed : args.namedSpread.isSome = true → args.closed = true

/-- The arguments from left to right. -/
def nodes (args : ArgList) : List Node :=
  args.positional.toList.map .expr ++ args.named.toList.flatMap ofNamed ++
    args.namedSpread.toList.map .expr

end ArgList

variable {args : ArgList}

section
variable (sound : nested.Sound) (le : count ≤ nested.fuel) (proper : args.Proper)
  (passes : reading.Passes count lo args.nodes state)
include sound le proper passes

theorem namedArg_reads (assigned : state.stream.second.kind = .mark .assign) :
    Reads reading.Fallen state (namedArg nested args) fun args after =>
      args.Proper ∧ reading.Passes count lo args.nodes after := by
  obtain ⟨place, row, here⟩ := passes
  refine (ident_reads here).bind ?_
  rintro name _ ⟨rfl, last, nameRow, behind⟩
  have second : state.advance.stream.next = state.stream.second := by
    obtain ⟨⟨next, rest⟩, errors⟩ := state
    cases rest <;> rfl
  refine .skip behind (by simp [second, assigned]) fun behind => ?_
  by_cases noMore : args.namedSpread.isSome = true
  · rw [if_pos noMore]
    exact .fail_bind behind _
  rw [if_neg noMore]
  refine (sound.lowest behind (by omega)).bind ?_
  rintro value after ⟨valueProper, hi, valueRow, behind⟩
  refine .pure ⟨⟨proper.positional, ?_, proper.namedSpread, proper.spread,
    fun given => absurd given noMore⟩, hi, ?_, behind.mono (by omega)⟩
  · simpa [or_imp, forall_and, NamedArg.value] using And.intro proper.named valueProper
  · have none : args.namedSpread = none := by simpa using noMore
    have row := row.append (nameRow.append valueRow)
    simpa [ArgList.nodes, ofNamed, none] using row

theorem positionalArg_reads :
    Reads reading.Fallen state (positionalArg nested args) fun args after =>
      args.Proper ∧ reading.Passes count lo args.nodes after := by
  obtain ⟨place, row, here⟩ := passes
  refine (sound.lowest here le).bind ?_
  rintro value middle ⟨valueProper, hi, valueRow, behind⟩
  have rest (spread : Bool) {after : ParseState} (behind : reading.At count hi after) :
      Reads reading.Fallen after (do
        if args.namedSpread.isSome then fail (.misplaced .argumentAfterNamedSpread value.span)
        if args.closed then
          if spread then return { args with namedSpread := some value }
          else fail (.misplaced .positionalAfterSpread value.span)
        else return { args with positional := args.positional.push value, spread })
        fun args after => args.Proper ∧ reading.Passes count lo args.nodes after := by
    by_cases noMore : args.namedSpread.isSome = true
    · rw [if_pos noMore]
      exact .fail_bind behind _
    rw [if_neg noMore]
    have none : args.namedSpread = none := by simpa using noMore
    have row := row.append valueRow
    by_cases closed : args.closed = true
    · rw [if_pos closed]
      cases spread with
      | true =>
        refine .pure ⟨⟨proper.positional, proper.named, by simpa using valueProper, proper.spread,
          fun _ => closed⟩, hi, ?_, behind⟩
        simpa [ArgList.nodes, none] using row
      | false => exact .fail behind _
    · rw [if_neg closed]
      have noNamed : args.named = #[] := by
        have := mt Bool.or_eq_true_iff.2 closed
        simpa using not_or.1 this |>.2
      refine .pure
        ⟨⟨?_, proper.named, proper.namedSpread, by simp, fun given => absurd given noMore⟩,
        hi, ?_, behind⟩
      · simpa [or_imp, forall_and] using And.intro proper.positional valueProper
      · simpa [ArgList.nodes, none, noNamed] using row
  exact .accept behind (by decide) (fun _ behind => rest true (behind.mono (by omega)))
    fun _ => rest false (behind.pred)

theorem argument_reads :
    Reads reading.Fallen state (argument nested args) fun args after =>
      args.Proper ∧ reading.Passes count lo args.nodes after := by
  refine .step (isNext_eq _ _) (.step (isSecond_eq _ _) ?_)
  split
  next both =>
    rw [Bool.and_eq_true, beq_iff_eq, beq_iff_eq] at both
    exact namedArg_reads sound le proper passes both.2
  next => exact positionalArg_reads sound le proper passes

end

section continued
variable {left : Expr} (sound : nested.Sound) (here : reading.At count mid state)
  (le : count ≤ nested.fuel + 1) (row : Row reading.layout lo mid [.expr left])
  (proper : left.Proper)

include sound here le row proper

theorem callExpr_reads (other : state.stream.next.kind ≠ .mark .rightBrace)
    (tight : Level.access.toNat ≤ left.limit) :
    Reads reading.Fallen state (callExpr nested left)
      (ReadPrimary reading (count - 1) lo left.braced) := by
  refine .skip here other fun behind => ?_
  refine (commaSeparated_reads (fun (args : ArgList) state =>
    args.Proper ∧ reading.Passes (count - 1) mid args.nodes state)
    ⟨⟨by simp, by simp, by simp, by simp, by simp⟩, mid, .none, behind⟩ ?_ ?_).bind ?_
  · exact fun _ _ known _ => argument_reads sound (by omega) known.1 known.2
  · exact fun _ _ known isComma => ⟨known.1, known.2.skip (by simp [isComma])⟩
  · rintro args after ⟨fits, place, argsRow, behind⟩
    refine .expect behind (by decide) fun hi _ closed behind' => ?_
    refine .pure ⟨.call tight proper fits.positional fits.named fits.namedSpread fits.spread
      fun given => ?_,
      rfl, rfl, rfl, hi, ?_, behind'.pred⟩
    · simpa [ArgList.closed] using fits.closed given
    · exact row.wrap argsRow closed rfl ((sublist_append_left _ _).cons_cons _) trivial

theorem indexExpr_reads (tight : Level.access.toNat ≤ left.limit) :
    Reads reading.Fallen state (indexExpr nested left)
      (ReadPrimary reading (count - 1) lo left.braced) := by
  have bound {lo : Nat} {state : ParseState} (here : reading.At (count - 1) lo state) :
      Reads reading.Fallen state (nested.expr .lowest) fun expr after =>
        (∀ value ∈ some expr, value.Proper) ∧ reading.Passes (count - 1) lo [.expr expr] after :=
    (sound.lowest here (by omega)).imp fun _ _ read => ⟨by simpa using read.1, read.2.pred⟩
  refine .skipExpect here (by decide) fun behind => ?_
  refine .step (isNextMark_eq _ _) ?_
  refine .optional (fun low after => (∀ value ∈ low, Expr.Proper value) ∧
    reading.Passes (count - 1) mid (low.toList.map .expr) after) (fun _ => bound behind)
    (fun _ => ⟨by simp, mid, .none, behind⟩) ?_
  rintro low after ⟨lowProper, place, lowRow, behind⟩
  refine .accept behind (by decide) (fun _ behind => ?_) fun _ => ?_
  · have behind := behind.pred
    refine .step (isNextMark_eq _ _) ?_
    refine .optional (fun high after => (∀ value ∈ high, Expr.Proper value) ∧
      reading.Passes (count - 1) place (high.toList.map .expr) after) (fun _ => bound behind)
      (fun _ => ⟨by simp, place, .none, behind⟩) ?_
    rintro high after ⟨highProper, last, highRow, behind⟩
    refine .expect behind (by decide) fun hi _ closed behind => ?_
    refine .pure ⟨.slice tight proper lowProper highProper, rfl, rfl, rfl, hi, ?_, behind.pred⟩
    exact row.wrap (lowRow.append highRow) closed rfl
      ((sublist_append_left _ _).cons_cons _) trivial
  · refine .expect behind (by decide) fun hi _ closed behind => ?_
    cases low with
    | none => exact .fail behind _
    | some index =>
      refine .pure ⟨.index tight proper (lowProper index rfl), rfl, rfl, rfl, hi, ?_, behind.pred⟩
      exact row.wrap lowRow closed rfl ((sublist_append_left _ _).cons_cons _) trivial

/-- An operand that the next token continues becomes the first operand of a larger expression. -/
theorem continueExpr_reads (continuation : Continuation)
    (continues : state.stream.next.kind.continuation? = some continuation)
    (tight : continuation.level.toNat ≤ left.limit) :
    Reads reading.Fallen state
      (continueExpr nested left continuation.level.ofRightOperand continuation)
      fun expr => ReadExpr reading (count - 1) lo continuation.level.toNat (expr.limit + 1)
        left.braced expr := by
  have other : state.stream.next.kind ≠ .mark .rightBrace := by
    intro isBrace
    rw [isBrace] at continues
    cases continues
  cases continuation with
  | question =>
    refine .skip here other fun behind => ?_
    refine (sound.lowest behind (by omega)).bind ?_
    rintro yes after ⟨yesProper, place, yesRow, behind⟩
    refine .skipExpect behind (by decide) fun behind => ?_
    refine (sound.expr .ternary behind (by omega) (by decide)).bind ?_
    rintro no after ⟨noProper, level, -, ends, hi, noRow, behind⟩
    refine .pure ⟨.cond tight level proper yesProper noProper, Nat.le_refl _, rfl, ends, hi, ?_,
      behind.mono (by omega)⟩
    exact row.wrap yesRow noRow rfl (List.Sublist.refl _) trivial
  | call =>
    exact (callExpr_reads sound here le row proper other tight).imp
      fun _ _ read => read.read (Nat.le_refl _)
  | index =>
    exact (indexExpr_reads sound here le row proper tight).imp fun _ _ read =>
      read.read (Nat.le_refl _)
  | select =>
    refine .skip here other fun behind => ?_
    refine (ident_reads behind).bind ?_
    rintro field after ⟨-, hi, fieldRow, behind⟩
    refine .pure (ReadPrimary.read ⟨.select tight proper, rfl, rfl, rfl, hi, ?_,
      behind.pred⟩ (Nat.le_refl _))
    exact row.wrap .none fieldRow rfl (List.Sublist.refl _) trivial
  | binary op =>
    refine .skip here other fun behind => ?_
    have loose : op.level.ofRightOperand.toNat ≤ Level.unary.toNat := by
      rw [op.toNat_ofRightOperand]
      exact op.level_bounds.2
    refine (sound.expr op.level.ofRightOperand behind (by omega) loose).bind ?_
    rintro right after ⟨rightProper, level, -, ends, hi, rightRow, behind⟩
    refine .pure ⟨.binary tight level proper rightProper, Nat.le_refl _, rfl, ?_, hi, ?_,
      behind.pred⟩
    · rw [op.toNat_ofRightOperand] at ends
      exact ends
    · exact row.wrap .none rightRow rfl (Sublist.refl _) trivial

end continued

/-- Continuing goes on until nothing behind the expression binds tightly enough. -/
theorem continueAll_reads (sound : nested.Sound) (le : count ≤ nested.fuel + 1) (fuel : Nat)
    (enough : count ≤ fuel) {left : Expr}
    (read : ReadExpr reading count lo least.toNat (left.limit + 1) brace left state) :
    Reads reading.Fallen state (continueAll nested least fuel left)
      (ReadExpr reading count lo least.toNat least.toNat brace) := by
  induction fuel generalizing left count state with
  | zero =>
    obtain rfl : count = 0 := by omega
    refine .pure { read with ends := ?_ }
    obtain ⟨hi, row, here⟩ := read.passes
    apply Token.ends_of_none
    rw [here.endOfFile]
    rfl
  | succ fuel ih =>
    unfold continueAll
    refine .step (next_eq state) ?_
    split
    next none =>
      exact .pure { read with ends := Token.ends_of_none none }
    next continuation continues =>
      dsimp only
      split
      next stops =>
        refine .pure { read with ends := fun other others inline => ?_ }
        cases continues.symm.trans others
        simpa [inline] using stops
      next goesOn =>
        simp only [Bool.or_eq_true, decide_eq_true_eq, not_or, Nat.not_lt,
          Bool.not_eq_true] at goesOn
        have tight := Nat.le_of_lt_succ (read.ends continuation continues goesOn.2)
        obtain ⟨mid, row, here⟩ := read.passes
        refine (continueExpr_reads sound here le row read.proper continuation continues
          tight).bind ?_
        intro expr after larger
        refine (ih (by omega : count - 1 ≤ nested.fuel + 1) (by omega) { larger with
          level := Nat.le_trans goesOn.1 larger.level
          braced := larger.braced.trans read.braced }).imp fun _ _ read => ?_
        exact { read with passes := read.passes.pred }

section
variable (sound : nested.Sound) (here : reading.At count lo state) (le : count ≤ nested.fuel + 1)
include sound here le

theorem exprAt_reads (loose : least.toNat ≤ Level.unary.toNat) :
    Reads reading.Fallen state (exprAt nested least)
      (ReadExpr reading (count - 1) lo least.toNat least.toNat state.braced) := by
  refine (unaryExpr_reads sound here le).bind fun left after read => ?_
  exact continueAll_reads sound (by omega) nested.fuel (by omega)
    { read with level := Nat.le_trans loose read.level }

theorem exprAt_lowest :
    Reads reading.Fallen state (exprAt nested .lowest) fun expr after =>
      expr.Proper ∧ reading.Passes (count - 1) lo [.expr expr] after :=
  (exprAt_reads sound here le (by decide)).imp fun _ _ read => ⟨read.proper, read.passes⟩

end

end Parse

end Skiff
