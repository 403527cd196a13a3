import Skiff.Proofs.Tree.Image

/-!
# Reading scripts

Every statement that is read is proper and stands where its tokens do. A broken statement is left
out, and reading goes on behind it. Each list of statements stops at the limit of errors, so the
number of errors is bounded by that limit and the number of lists that can be open.
-/

namespace Skiff

open List Script Node Token

namespace Parse

variable {reading : Reading} {nested : Nested} {count lo mid mid' : Nat} {state : ParseState}
  {start : Span}

theorem simpleStmt_reads (sound : nested.Sound) (here : reading.At count lo state)
    (le : count ≤ nested.fuel + 1) :
    Reads reading.Fallen state (simpleStmt nested) fun stmt after =>
      (stmt.Simple ∧ stmt.braced = state.braced) ∧
        reading.Passes (count - 1) lo [.stmt stmt] after := by
  refine (exprAt_reads sound here le (by decide)).bind ?_
  rintro target after ⟨proper, -, braced, -, mid, row, behind⟩
  refine .step (next_eq after) ?_
  split
  next op assigns =>
    have spelled : ∃ mark, op.mark? = some mark ∧ after.stream.next.kind ≠ .mark .rightBrace := by
      cases kind : after.stream.next.kind with
      | mark mark =>
        rw [kind] at assigns
        refine ⟨mark, AssignOp.mark?_eq_some.mpr assigns, ?_⟩
        rintro ⟨⟩
        cases assigns
      | _ => rw [kind] at assigns; cases assigns
    obtain ⟨mark, spelled, other⟩ := spelled
    refine .skip behind other fun behind => ?_
    refine (exprAt_lowest sound behind (by omega)).bind ?_
    rintro value after ⟨valueProper, hi, valueRow, behind⟩
    refine .pure ⟨⟨.assign spelled proper valueProper, braced⟩, hi, ?_, behind.mono (by omega)⟩
    exact row.wrap .none valueRow rfl (Sublist.refl _) trivial
  next =>
    split
    next counts =>
      have other : after.stream.next.kind ≠ .mark .rightBrace := by
        intro isBrace
        rw [isBrace] at counts
        cases counts
      obtain ⟨hi, markRow, beyond⟩ := behind.advance other
      refine .step (skip_eq after) (.pure ⟨⟨.count proper, braced⟩, hi, ?_, beyond.pred⟩)
      exact row.wrap .none markRow rfl (sublist_append_left [_] _) trivial
    next =>
      refine .pure ⟨⟨.expr proper, braced⟩, mid, ?_, behind⟩
      exact row.recast rfl (Sublist.refl _) trivial

/-! ## Conditional statements -/

variable {init : Option Stmt} {stmt : Parse Stmt} {fuel levels : Nat}

section
variable (sound : nested.Sound)
include sound

theorem condRest_reads (here : reading.At count mid' state) (le : count ≤ nested.fuel) {test : Expr}
    (initSimple : ∀ stmt ∈ init, stmt.Simple) (testProper : test.Proper)
    (opened : Row reading.layout lo mid [.leaf start])
    (row : Row reading.layout mid mid' (init.toList.map .stmt ++ [.expr test])) :
    Reads reading.Fallen state (condRest nested start init test) fun stmt after =>
      (stmt.Proper ∧ stmt.isAlternative = true) ∧ reading.Passes count lo [.stmt stmt] after := by
  refine (sound.block here le).bind ?_
  rintro yes after ⟨yesProper, place, yesRow, behind⟩
  refine .accept behind (by decide) (fun _ behind => ?_) fun _ => ?_
  · have alternative {parser : Parse Stmt} {state : ParseState}
        (reads : Reads reading.Fallen state parser
        fun no after => (no.Proper ∧ no.isAlternative = true) ∧
          reading.Passes (count - 1 - 1 - 1) place [.stmt no] after) :
        Reads reading.Fallen state
          (parser >>= fun no => pure (Stmt.cond (start.merge no.span) init test yes (some no)))
          fun stmt after => (stmt.Proper ∧ stmt.isAlternative = true) ∧
            reading.Passes count lo [.stmt stmt] after := by
      refine reads.bind ?_
      rintro no after ⟨⟨noProper, isAlternative⟩, hi, noRow, behind⟩
      refine .pure ⟨⟨?_, rfl⟩, hi, ?_, behind.mono (by omega)⟩
      · exact .cond initSimple testProper yesProper (by simpa using noProper)
          (by simpa using isAlternative)
      · refine opened.wrap (row.append yesRow) noRow rfl (.cons _ ?_) trivial
        simp [parts, ofStmt]
    refine .step (isNext_eq _ _) ?_
    dsimp only
    split
    · exact alternative (sound.cond behind (by omega))
    · refine alternative ((sound.block behind (by omega)).map ?_)
      rintro body after ⟨bodyProper, hi, bodyRow, behind⟩
      exact ⟨⟨.block bodyProper, rfl⟩, hi, bodyRow.recast rfl (Sublist.refl _) trivial, behind⟩
  · refine .pure ⟨⟨.cond initSimple testProper yesProper (by simp) (by simp), rfl⟩, place, ?_,
      behind.pred⟩
    refine opened.wrap row yesRow rfl (.cons _ ?_) trivial
    simp [parts, ofStmt]

theorem condStmt_reads (here : reading.At count lo state) (le : count ≤ nested.fuel + 1) :
    Reads reading.Fallen state (condStmt nested) fun stmt after =>
      (stmt.Proper ∧ stmt.isAlternative = true) ∧
        reading.Passes (count - 1) lo [.stmt stmt] after := by
  refine .expect here (by decide) fun mid _ opened behind => ?_
  refine (simpleStmt_reads sound behind (by omega)).bind ?_
  rintro first after ⟨⟨simple, -⟩, place, row, behind⟩
  refine .accept behind (by decide) (fun _ behind => ?_) fun _ => ?_
  · refine (exprAt_lowest sound behind (by omega)).bind ?_
    rintro test after ⟨testProper, last, testRow, behind⟩
    exact condRest_reads sound (behind.mono (by omega)) (by omega)
      (by simpa using simple) testProper opened (row.append testRow)
  · cases simple with
    | expr testProper =>
      refine condRest_reads sound (behind.pred) (by omega) ?_ testProper opened row.parts
      simp
    | _ => exact .fail behind _

/-! ## Loops -/

theorem forEachRest_reads (here : reading.At count mid' state) (le : count ≤ nested.fuel + 1)
    {key value : Ident} (opened : Row reading.layout lo mid [.leaf start])
    (row : Row reading.layout mid mid' ((if key.span = value.span then [] else [.ident key]) ++
      [.ident value]))
    (blank : key.span = value.span → key.name = "_" ∨ value.span.stop ≤ value.span.start) :
    Reads reading.Fallen state (forEachRest nested start key value) fun stmt after =>
      stmt.Proper ∧ reading.Passes count lo [.stmt stmt] after := by
  refine .skipExpect here (by decide) fun behind => ?_
  refine (exprAt_lowest sound behind (by omega)).bind ?_
  rintro iterable after ⟨proper, place, iterableRow, behind⟩
  refine (sound.block behind (by omega)).bind ?_
  rintro body after ⟨bodyProper, hi, bodyRow, behind⟩
  refine .pure ⟨.forEach proper bodyProper, hi, ?_, behind.mono (by omega)⟩
  refine opened.wrap (row.append iterableRow) bodyRow rfl (.cons _ ?_) blank
  simp [parts, ofStmt]

theorem forEachStmt_reads (here : reading.At count mid state) (le : count ≤ nested.fuel + 1)
    (opened : Row reading.layout lo mid [.leaf start]) :
    Reads reading.Fallen state (forEachStmt nested start) fun stmt after =>
      stmt.Proper ∧ reading.Passes count lo [.stmt stmt] after := by
  refine (ident_reads here).bind ?_
  rintro first after ⟨-, place, row, behind⟩
  refine .accept behind (by decide) (fun _ behind => ?_) fun _ => ?_
  · refine (ident_reads behind).bind ?_
    rintro second after ⟨-, last, secondRow, behind⟩
    refine forEachRest_reads sound (behind.mono (by omega)) le opened
      ((row.append secondRow).sublist ?_) fun same => .inr ?_
    · split
      · exact (Sublist.refl _).cons _
      · exact Sublist.refl _
    · have apart := rel_of_pairwise_cons (row.append secondRow).pairwise (mem_singleton_self _)
      rwa [Node.span, same] at apart
  · refine forEachRest_reads sound (behind.pred) le opened ?_ fun _ => .inl rfl
    rw [if_pos rfl]
    exact row

theorem loopRest_reads (here : reading.At count mid' state) (le : count ≤ nested.fuel + 1)
    (initSimple : ∀ stmt ∈ init, stmt.Simple) (initPlain : ∀ stmt ∈ init, stmt.braced = false)
    (opened : Row reading.layout lo mid [.leaf start])
    (row : Row reading.layout mid mid' (init.toList.map .stmt)) :
    Reads reading.Fallen state (loopRest nested start init) fun stmt after =>
      stmt.Proper ∧ reading.Passes count lo [.stmt stmt] after := by
  refine .skipExpect here (by decide) fun behind => ?_
  refine .step (isNextMark_eq _ _) ?_
  refine .optional (fun test after => (∀ value ∈ test, Expr.Proper value) ∧
    reading.Passes (count - 1) mid' (test.toList.map .expr) after) (fun _ => ?_)
    (fun _ => ⟨by simp, mid', .none, behind⟩) ?_
  · refine (exprAt_lowest sound behind (by omega)).imp fun _ _ read => ?_
    exact ⟨by simpa using read.1, read.2.pred⟩
  rintro test after ⟨testProper, place, testRow, behind⟩
  refine .skipExpect behind (by decide) fun behind => ?_
  refine .step (isNextMark_eq _ _) ?_
  refine .optional (fun post after => ((∀ stmt ∈ post, Stmt.Simple stmt) ∧
    ∀ stmt ∈ post, stmt.braced = false) ∧
    reading.Passes (count - 1 - 1) place (post.toList.map .stmt) after) (fun wanted => ?_)
    (fun _ => ⟨⟨by simp, by simp⟩, place, .none, behind⟩) ?_
  · refine (simpleStmt_reads sound behind (by omega)).imp fun _ _ read => ?_
    exact ⟨⟨by simpa using read.1.1, by simpa using read.1.2.trans wanted⟩, read.2.pred⟩
  rintro post after ⟨⟨postSimple, postPlain⟩, last, postRow, behind⟩
  refine (sound.block behind (by omega)).bind ?_
  rintro body after ⟨bodyProper, hi, bodyRow, behind⟩
  refine .pure ⟨.loop initSimple initPlain testProper postSimple postPlain bodyProper, hi, ?_,
    behind.mono (by omega)⟩
  refine opened.wrap ((row.append testRow).append postRow) bodyRow rfl (.cons _ ?_) trivial
  exact Sublist.refl _

theorem loopStmt_reads (here : reading.At count lo state) (le : count ≤ nested.fuel + 1) :
    Reads reading.Fallen state (loopStmt nested) fun stmt after =>
      stmt.Proper ∧ reading.Passes (count - 1) lo [.stmt stmt] after := by
  refine .expect here (by decide) fun mid _ opened behind => ?_
  have bodyOnly {test : Option Expr} {place : Nat} {after : ParseState}
      (there : reading.At (count - 1) place after) (testProper : ∀ value ∈ test, value.Proper)
      (row : Row reading.layout mid place (test.toList.map .expr)) :
      Reads reading.Fallen after (nested.block >>= fun body =>
        pure (Stmt.loop (state.stream.next.span.merge body.span) none test none body))
          fun stmt after =>
        stmt.Proper ∧ reading.Passes (count - 1) lo [.stmt stmt] after := by
    refine (sound.block there (by omega)).bind ?_
    rintro body after ⟨bodyProper, hi, bodyRow, behind⟩
    refine .pure ⟨.loop (by simp) (by simp) testProper (by simp) (by simp) bodyProper, hi, ?_,
      behind.pred⟩
    refine opened.wrap row bodyRow rfl (.cons _ ?_) trivial
    simp [parts, ofStmt]
  refine .step (isNextMark_eq _ _) ?_
  split
  · exact bodyOnly behind (by simp) .none
  next noBrace =>
    refine .step (isNext_eq _ _) (.step (isSecond_eq _ _) (.step (isSecond_eq _ _) ?_))
    split
    · exact forEachStmt_reads sound behind (by omega) opened
    refine .step (isNextMark_eq _ _) ?_
    split
    · exact loopRest_reads sound behind (by omega) (by simp) (by simp) opened .none
    refine (simpleStmt_reads sound behind (by omega)).bind ?_
    rintro first after ⟨⟨simple, plain⟩, place, row, behind⟩
    refine .step (isNextMark_eq _ _) ?_
    split
    · cases simple with
      | expr proper => exact bodyOnly (behind.pred) (by simpa using proper) row.parts
      | _ => exact .fail behind _
    · refine loopRest_reads sound (behind.pred) (by omega) (by simpa using simple) ?_ opened row
      simpa using plain.trans (Bool.eq_false_iff.2 noBrace)

end

/-! ## Lists of statements -/

/-- The state behind a statement, or before the semicolon that an empty one consists of. -/
def Reading.Finishes (reading : Reading) (count lo : Nat) (stmt : Stmt) (state : ParseState) :
    Prop :=
  reading.Passes count lo [.stmt stmt] state ∨
    state.stream.next.kind = .mark .semicolon ∧ reading.Passes count lo [.stmt stmt] state.advance

theorem stmtOf_reads (sound : nested.Sound) (here : reading.At count lo state)
    (le : count ≤ nested.fuel) : Reads reading.Fallen state (stmtOf nested) fun stmt after =>
      stmt.Proper ∧ reading.Finishes count lo stmt after := by
  refine .step (next_eq state) ?_
  dsimp only
  generalize found : state.stream.next.kind = kind
  split
  · obtain ⟨hi, row, behind⟩ := here.advance (by simp [found])
    refine .pure ⟨.empty, .inr ⟨found, hi, ?_, behind.pred⟩⟩
    exact row.recast rfl (nil_sublist _) trivial
  · exact (condStmt_reads sound here (by omega)).imp fun _ _ read => ⟨read.1.1, .inl (read.2.pred)⟩
  · exact (loopStmt_reads sound here (by omega)).imp fun _ _ read => ⟨read.1, .inl (read.2.pred)⟩
  · refine (sound.block here le).map ?_
    rintro body after ⟨proper, hi, row, behind⟩
    exact ⟨.block proper, .inl ⟨hi, row.recast rfl (Sublist.refl _) trivial, behind.pred⟩⟩
  · obtain ⟨mid, opened, behind⟩ := here.advance (by simp [found])
    refine .step (skip_eq state) (.step (atStmtEnd_eq _) ?_)
    split
    · refine .pure ⟨.result (by simp), .inl ⟨mid, ?_, behind.pred⟩⟩
      exact opened.recast rfl (nil_sublist _) trivial
    · refine (exprAt_lowest sound behind (by omega)).bind ?_
      rintro value after ⟨proper, hi, row, behind⟩
      refine .pure ⟨.result (by simpa using proper), .inl ⟨hi, ?_, behind.mono (by omega)⟩⟩
      exact opened.wrap .none row rfl ((Sublist.refl _).cons _) trivial
  · obtain ⟨mid, opened, behind⟩ := here.advance (by simp [found])
    refine .step (skip_eq state) ((exprAt_lowest sound behind (by omega)).bind ?_)
    rintro value after ⟨proper, hi, row, behind⟩
    refine .pure ⟨.publish proper, .inl ⟨hi, ?_, behind.mono (by omega)⟩⟩
    exact opened.wrap .none row rfl ((Sublist.refl _).cons _) trivial
  · obtain ⟨mid, opened, behind⟩ := here.advance (by simp [found])
    refine .step (skip_eq state) (.pure ⟨.leave, .inl ⟨mid, ?_, behind.pred⟩⟩)
    exact opened.recast rfl (nil_sublist _) trivial
  · obtain ⟨mid, opened, behind⟩ := here.advance (by simp [found])
    refine .step (skip_eq state) (.pure ⟨.next, .inl ⟨mid, ?_, behind.pred⟩⟩)
    exact opened.recast rfl (nil_sublist _) trivial
  next noBrace _ _ _ _ =>
    refine (simpleStmt_reads sound here (by omega)).imp fun _ _ read => ?_
    have plain : state.braced = false := beq_eq_false_iff_ne.2 (found ▸ noBrace)
    exact ⟨.simple read.1.1 (read.1.2.trans plain), .inl (read.2.pred)⟩

theorem terminator_reads {stmt : Stmt} (finishes : reading.Finishes count lo stmt state) :
    Reads reading.Fallen state terminator fun _ after =>
      reading.Passes count lo [.stmt stmt] after := by
  by_cases semicolon : state.stream.next.kind = .mark .semicolon
  · refine .step (accept_eq semicolon) (.pure ?_)
    obtain passes | ⟨-, passes⟩ := finishes
    · exact passes.skip (by simp [semicolon])
    · exact passes
  · obtain ⟨hi, row, here⟩ := finishes.resolve_right fun other => semicolon other.1
    refine .step (accept_missing semicolon) (.step (atStmtEnd_eq _) ?_)
    split
    · exact .pure ⟨hi, row, here⟩
    · exact .unexpected here _

variable {fallen : ParseState → Prop}

theorem skipStmt_reads (here : reading.At count lo state) (fuel : Nat) :
    Reads fallen state (skipStmt fuel) fun _ => reading.At count lo := by
  induction fuel generalizing state with
  | zero => exact .pure here
  | succ fuel ih =>
    unfold skipStmt
    refine .step (atListEnd_eq _) ?_
    split
    · exact .pure here
    next goesOn =>
      rw [Bool.or_eq_true, not_or, beq_iff_eq, beq_iff_eq] at goesOn
      refine .step (next_eq _) ?_
      split
      · exact .pure here
      refine .accept here (by decide) (fun _ behind => .pure (behind.pred)) fun _ => ?_
      exact .skip here goesOn.2 fun behind => ih (behind.pred)

theorem recover_reads (here : reading.At count lo state) (fuel : Nat) :
    Reads fallen state (recover fuel) fun _ => reading.At count lo := by
  refine .step (atListEnd_eq _) ?_
  split
  next ends => exact skipStmt_reads here fuel
  next goesOn =>
    rw [Bool.or_eq_true, not_or, beq_iff_eq, beq_iff_eq] at goesOn
    exact .skip here goesOn.2 fun behind => skipStmt_reads (behind.pred) fuel

/-- A parser of statements, inside of readings of so many tokens. -/
def ReadsStmts (stmt : Parse Stmt) (total : Nat) : Prop :=
  ∀ (inner : Reading) lo state, inner.total ≤ total → inner.At inner.total lo state →
    Reads inner.Fallen state stmt fun read after =>
      read.Proper ∧ inner.Finishes inner.total lo read after

/-- Only statements without an error are kept, and each starts below the limit of errors. -/
theorem stmtList_reads (room : roof reading.limit reading.base + 1 ≤ reading.errors)
    (step : ReadsStmts stmt reading.total) (rounds : Nat) (done : Array Stmt)
    (proper : ∀ stmt ∈ done.toList, stmt.Proper)
    (passes : reading.Passes reading.total lo (done.toList.map .stmt) state) :
    Reads fallen state (stmtList stmt fuel rounds done) fun stmts after =>
      (∀ stmt ∈ stmts.toList, stmt.Proper) ∧
        reading.Passes reading.total lo (stmts.toList.map .stmt) after := by
  induction rounds generalizing done state with
  | zero => exact .pure ⟨proper, passes⟩
  | succ rounds ih =>
    unfold stmtList
    refine .step (atListEnd_eq _) ?_
    split
    · exact .pure ⟨proper, passes⟩
    refine .step (tooManyErrors_eq _) ?_
    split
    · exact .pure ⟨proper, passes⟩
    next few =>
      rw [decide_eq_true_eq, Nat.not_le] at few
      obtain ⟨place, row, here⟩ := passes
      let inner :
        Reading := { reading with errors := roof reading.limit reading.base, low := place }
      have inside : inner.At inner.total place state :=
        { here with
          all := here.few
          low := Nat.le_refl _
          errors := by change _ ≤ roof _ _; unfold roof; omega
          roomy := Nat.le_refl _ }
      have one : Reads inner.Fallen state (do let read ← stmt; terminator; return read)
          fun read after =>
          read.Proper ∧ inner.Passes inner.total place [.stmt read] after := by
        refine (step inner _ _ (Nat.le_refl _) inside).bind fun read after given => ?_
        exact (terminator_reads given.2).bind fun _ after passes => .pure ⟨given.1, passes⟩
      refine one.attempt ?_ ?_
      · rintro read after ⟨readProper, last, readRow, behind⟩
        refine ih _ ?_ ⟨last, ?_, { behind with
          low := Nat.le_trans here.low behind.low
          errors := Nat.le_trans behind.errors here.roomy
          roomy := here.roomy }⟩
        · simpa [or_imp, forall_and] using And.intro proper readProper
        · simpa using row.append readRow
      · rintro after ⟨low, lost⟩
        have there : reading.At reading.total low after :=
          { lost with
            low := Nat.le_trans here.low lost.low
            errors := Nat.le_trans lost.errors room
            roomy := here.roomy }
        refine (recover_reads there fuel).bind fun _ _ behind => ih _ proper ⟨low, ?_, behind⟩
        exact row.widen (Nat.le_refl _) lost.low

theorem blockOf_reads (here : reading.At count lo state) (step : ReadsStmts stmt (count - 1)) :
    Reads reading.Fallen state (blockOf stmt fuel) fun body after =>
      body.Proper ∧ reading.Passes (count - 1) lo [.block body] after := by
  refine (braces_reads (fun span (stmts : Array Stmt) => Block.mk span stmts.toList) .block
    (fun stmts => ∀ stmt ∈ stmts.toList, stmt.Proper) (fun stmts => stmts.toList.map .stmt) here
    (fun {total lo state} few inside => ?_) fun _ _ => ⟨rfl, rfl, trivial⟩).imp ?_
  · refine stmtList_reads ?_ (fun inner lo state less =>
      step inner lo state (Nat.le_trans less few)) fuel #[] (by simp) ⟨_, .none, inside⟩
    have deeper : reading.base + 1 ≤ reading.limit := inside.base_le
    refine Nat.le_trans ?_ here.roomy
    change roof reading.limit (reading.base + 1) + 1 ≤ roof reading.limit reading.base
    unfold roof
    omega
  · rintro body after ⟨⟨span, stmts, rfl, proper⟩, passes⟩
    exact ⟨proper, passes⟩

theorem fuel_nested (levels : Nat) : (Parse.nested levels).fuel = levels := by
  cases levels <;> rfl

/-- The parsers of every number of levels are sound. -/
theorem nested_sound (levels : Nat) : (Parse.nested levels).Sound := by
  induction levels with
  | zero =>
    exact ⟨fun _ here _ _ => .unexpected here _, fun here _ => .unexpected here _,
      fun here _ => .unexpected here _⟩
  | succ levels ih =>
    refine ⟨fun least here le loose => ?_, fun here le => ?_, fun here le => ?_⟩
    · exact exprAt_reads ih here (by rw [fuel_nested]; exact le) loose
    · refine blockOf_reads here fun _ _ _ same inside => stmtOf_reads ih inside ?_
      rw [fuel_nested]
      exact Nat.le_trans same (Nat.sub_le_of_le_add le)
    · exact condStmt_reads ih here (by rw [fuel_nested]; exact le)

/-! ## Scripts -/

/-- A brace that closes nothing is passed over. -/
theorem scriptStmts_reads (ground : reading.base = 0)
    (room : maxParseErrors + reading.limit ≤ reading.errors) (le : reading.total ≤ levels)
    (rounds : Nat) (done : Array Stmt) (proper : ∀ stmt ∈ done.toList, stmt.Proper)
    (passes : reading.Passes reading.total lo (done.toList.map .stmt) state) :
    Reads fallen state (scriptStmts levels rounds done) fun stmts after =>
      (∀ stmt ∈ stmts.toList, stmt.Proper) ∧
        reading.Passes reading.total lo (stmts.toList.map .stmt) after := by
  have roomy : roof reading.limit reading.base + 1 ≤ reading.errors := by
    unfold roof maxParseErrors at *
    omega
  induction rounds generalizing done state with
  | zero => exact .pure ⟨proper, passes⟩
  | succ rounds ih =>
    unfold scriptStmts
    refine (stmtList_reads roomy ?_ levels done proper passes).bind ?_
    · intro inner lo state less inside
      exact stmtOf_reads (nested_sound levels) inside
        (by rw [fuel_nested]; exact Nat.le_trans less le)
    rintro stmts after ⟨proper, hi, row, here⟩
    refine .step (isNextMark_eq _ _) (.step (tooManyErrors_eq _) ?_)
    split
    next goesOn =>
      simp only [Bool.and_eq_true, Bool.not_eq_true', decide_eq_false_iff_not, Nat.not_le] at goesOn
      obtain ⟨place, braceRow, behind⟩ :=
        here.step 0 (fun _ _ => Nat.zero_le _) (ground ▸ here.roomy)
      refine .step (advance_eq after)
        (.step rfl (ih _ proper ⟨place, row.widen (Nat.le_refl _) braceRow.le, ?_⟩))
      refine { behind with
        few := behind.all
        deep := ground ▸ behind.deep
        errors := ?_
        roomy := here.roomy }
      refine Nat.le_trans ?_ room
      change (after.errors.push _).size ≤ _
      rw [Array.size_push]
      omega
    next => exact .pure ⟨proper, hi, row, here⟩

/-- What is known of a script that has been read, perhaps with errors. -/
structure ReadScript (reading : Reading) (script : Script) (state : ParseState) : Prop where
  proper : ∀ stmt ∈ script.stmts, stmt.Proper
  laid : script.span.Laid reading.layout reading.low script.span.stop
  row : Row reading.layout script.span.start script.span.stop (script.stmts.map .stmt)
  errors : state.errors.size ≤ reading.errors

theorem script_reads (here : reading.At reading.total reading.low state) (ground : reading.base = 0)
    (room : maxParseErrors + reading.limit ≤ reading.errors) (le : reading.total ≤ levels) :
    Reads fallen state (script levels) (ReadScript reading) := by
  refine .step (next_eq state) ?_
  obtain ⟨first, starts⟩ := here.next
  refine (scriptStmts_reads ground room le levels #[] (by simp) ⟨_, .none, starts⟩).bind ?_
  rintro stmts after ⟨proper, hi, row, behind⟩
  obtain ⟨last, -⟩ := behind.next
  refine .step (next_eq after) (.pure ⟨proper, ?_, ?_, behind.errors⟩)
  -- The last token may be the first one, which then is the end of the file.
  all_goals
    dsimp only
    rw [Span.merge, if_pos (first.file.trans last.file.symm),
      Nat.min_eq_left (Nat.le_trans row.le last.after)]
  · refine ⟨first.file, first.start, ?_, first.after, Nat.le_trans first.order
      (Nat.le_max_left _ _), Nat.le_refl _⟩
    obtain same | same := Nat.le_total state.stream.next.span.stop after.stream.next.span.stop
    · exact (Nat.max_eq_right same).symm ▸ last.stop
    · exact (Nat.max_eq_left same).symm ▸ first.stop
  · exact row.widen (Nat.le_refl _)
      (Nat.le_trans last.after (Nat.le_trans last.order (Nat.le_max_right _ _)))

end Parse

/-! ## The tokens of a text -/

theorem byteLength_append (chars chars' : List Char) :
    byteLength (chars ++ chars') = byteLength chars + byteLength chars' := by
  have start (chars : List Char) (n : Nat) :
      chars.foldl (fun n c => n + c.utf8Size) n = n + byteLength chars := by
    unfold byteLength
    induction chars generalizing n with
    | nil => rfl
    | cons c chars ih =>
      rw [foldl_cons, foldl_cons, ih, ih (0 + _)]
      omega
  rw [byteLength, foldl_append, start]
  rfl

theorem utf8ByteSize_eq (text : String) : text.utf8ByteSize = byteLength text.toList := by
  have encoded (chars : List Char) : chars.utf8Encode.size = byteLength chars := by
    induction chars with
    | nil => rfl
    | cons c chars ih =>
      rw [utf8Encode_cons, ByteArray.size_append, ih, utf8Encode_singleton,
        ← singleton_append, byteLength_append]
      simp [byteLength]
  rw [← encoded, String.utf8Encode_toList]
  rfl

/-- An offset in a text counts the bytes before it. -/
def Layout.ofText (text : String) (file : UInt16) : Layout where
  file
  edge offset := ∃ before after, text.toList = before ++ after ∧ offset = byteLength before
  holds span name := name ≠ "" ∧ ∃ before after, text.toList = before ++ name.toList ++ after ∧
    span.start = byteLength before ∧ span.stop = byteLength (before ++ name.toList)

theorem Layout.edge_le {text : String} {file : UInt16} {offset : Nat}
    (edge : (Layout.ofText text file).edge offset) : offset ≤ text.utf8ByteSize := by
  obtain ⟨before, after, split, rfl⟩ := edge
  rw [utf8ByteSize_eq, split, byteLength_append]
  exact Nat.le_add_right ..

/-- Tokens stand one behind the other, each of them where its text stands, and the last one is the
end of the file. -/
theorem Token.scanFrom_laid {whole : String} (file : UInt16) (newline : Bool) (done : Array Token)
    {text : List Char} {offset : Nat} (before : List Char) (split : whole.toList = before ++ text)
    (here : offset = byteLength before) :
    ∃ tokens last, (scanFrom file text offset newline done).toList
        = done.toList ++ (tokens ++ [last]) ∧
      (last.kind = .endOfFile ∧ last.span.stop ≤ last.span.start) ∧
      Row (.ofText whole file) offset (byteLength whole.toList)
        ((tokens ++ [last]).map fun token => .leaf token.span) ∧
      ∀ token ∈ tokens ++ [last], token.kind = .ident →
        (Layout.ofText whole file).holds token.span token.text := by
  fun_induction scanFrom file text offset newline done generalizing before with
  | case1 offset newline done =>
    rw [append_nil] at split
    have edge : (Layout.ofText whole file).edge offset := ⟨before, [], by simp [split], here⟩
    refine ⟨[], _, Array.toList_push, ⟨rfl, Nat.le_refl _⟩, ?_, ?_⟩
    · exact .cons ⟨rfl, edge, edge, Nat.le_refl _, Nat.le_refl _, Nat.le_of_eq (split ▸ here)⟩
        (.mk trivial .none) .none
    · intro token member isName
      obtain rfl := mem_singleton.1 member
      cases isName
  | case2 offset newline done first others scan length chars rest stop isSkipped ih =>
    obtain ⟨tokens, last, scanned, ends, row, holds⟩ := ih (before ++ chars)
      (by rw [split]; simp [chars, rest]) (by rw [byteLength_append, ← here])
    exact ⟨tokens, last, scanned, ends, row.widen (Nat.le_add_right _ _) (Nat.le_refl _), holds⟩
  | case3 offset newline done first others scan length chars rest stop kind isToken ih =>
    have cut : whole.toList = before ++ chars ++ rest := by
      rw [split]
      simp [chars, rest]
    have stops : stop = byteLength (before ++ chars) := by rw [byteLength_append, ← here]
    obtain ⟨tokens, last, scanned, ends, row, holds⟩ := ih _ cut stops
    refine ⟨{
      kind, span := ⟨offset, stop, file⟩, text := .ofList chars, newlineBefore := newline } :: tokens,
      last, scanned.trans ?_, ends, ?_, ?_⟩
    · rw [Array.toList_push, append_assoc]
      rfl
    · exact .cons ⟨rfl, ⟨before, _, split, here⟩, ⟨_, rest, cut, stops⟩, Nat.le_refl _,
        Nat.le_add_right _ _, Nat.le_refl _⟩ (.mk trivial (.nil (Nat.le_add_right _ _))) row
    · rw [List.cons_append, List.forall_mem_cons]
      refine ⟨fun _ => ⟨?_, before, rest, ?_, here, ?_⟩, holds⟩
      · simp [chars, ← String.toList_inj]
      · rw [String.toList_ofList]
        exact cut
      · rw [String.toList_ofList]
        exact stops

/-- What is known when reading of a text begins. -/
def Reading.ofText (text : String) (file : UInt16) : Parse.Reading where
  layout := .ofText text file
  total := (ParseState.ofText text file).levels
  limit := deepest 0 (scan text file)
  low := 0
  base := 0
  errors := maxParseErrors + deepest 0 (scan text file)

theorem ParseState.at_ofText (text : String) (file : UInt16) :
    (Reading.ofText text file).At (Reading.ofText text file).total 0 (.ofText text file) := by
  obtain ⟨tokens, last, scanned, ends, row, holds⟩ :=
    scanFrom_laid file false #[] [] (nil_append text.toList).symm rfl
  have scanned : scan text file = tokens ++ [last] := scanned
  have all : (ParseState.ofText text file).tokens = scan text file ∧
      (ParseState.ofText text file).stream.rest.getLastD (ParseState.ofText text file).stream.next
        = last := by
    unfold ParseState.tokens ParseState.ofText Stream.ofText
    rw [scanned]
    cases tokens <;> simp
  refine ⟨?_, Nat.le_add_right _ 2, Nat.le_add_right _ 2, Nat.le_refl _,
    ⟨byteLength text.toList, ?_⟩, ?_, ⟨0, Nat.le_refl _, ?_⟩, Nat.zero_le _, ?_⟩
  · rw [Stream.Closed, all.2]
    exact ends
  · rw [all.1, scanned]
    exact row
  · rw [all.1, scanned]
    exact holds
  · rw [all.1]
    exact Nat.le_refl _
  · exact Nat.add_le_add_right (Nat.sub_le _ _) _

/-- Reading a text never fails, though it may find errors. -/
theorem Script.read_ofText (text : String) (file : UInt16) :
    ∃ script after, Parse.script (ParseState.ofText text file).levels (.ofText text file)
        = .ok script after ∧ Parse.ReadScript (Reading.ofText text file) script after := by
  have reads : Parse.Reads (fun _ => False) _ _ _ :=
    Parse.script_reads (ParseState.at_ofText text file) rfl (Nat.le_refl _) (Nat.le_refl _)
  cases reads with
  | ok run holds => exact ⟨_, _, run, holds⟩
  | failed _ impossible => exact impossible.elim

variable {script : Script}

theorem Script.readScript_of_parse {text : String} {file : UInt16}
    (read : parse text file = .ok script) :
    ∃ after, Parse.ReadScript (Reading.ofText text file) script after := by
  obtain ⟨built, after, run, holds⟩ := read_ofText text file
  unfold parse ParseState.readScript at read
  rw [run] at read
  dsimp only at read
  split at read
  · cases read
    exact ⟨after, holds⟩
  · cases read

/-- Every script that is read from a text consists of proper statements, which stand in the text one
behind the other. -/
theorem Script.of_parse {text : String} {file : UInt16} (read : parse text file = .ok script) :
    (∀ stmt ∈ script.stmts, stmt.Proper) ∧
      ∃ hi, Row (.ofText text file) 0 hi (script.stmts.map .stmt) := by
  obtain ⟨after, holds⟩ := readScript_of_parse read
  exact ⟨holds.proper, _, holds.row.widen (Nat.zero_le _) (Nat.le_refl _)⟩

/-! ## Errors -/

/-- The errors with which a text is reported. -/
def Script.errors (text : String) (file : UInt16) : List ParseError :=
  match parse text file with
  | .ok _ => []
  | .error errors => errors

theorem Script.length_errors (text : String) (file : UInt16) {after : ParseState}
    (read : Parse.script (ParseState.ofText text file).levels (ParseState.ofText text file)
    = .ok script after) : (errors text file).length = after.errors.size := by
  unfold errors parse ParseState.readScript
  rw [read]
  dsimp only
  by_cases clean : after.errors.isEmpty = true
  · rw [if_pos clean, Array.isEmpty_iff.mp clean]
    rfl
  · rw [if_neg clean]
    exact Array.length_toList

/-- A text is reported with ten errors at most, and with one more for each level to which braces are
nested in it. -/
theorem Script.length_errors_le (text : String) (file : UInt16) :
    (errors text file).length ≤ maxParseErrors + deepest 0 (scan text file) := by
  obtain ⟨script, after, run, read⟩ := read_ofText text file
  rw [length_errors text file run]
  exact read.errors

/-- A block that is not closed, with ten broken statements in it. -/
def brokenBlock : String := "\x7b)\n)\n)\n)\n)\n)\n)\n)\n)\n)\n"

/-- The missing brace of a block is reported when the limit of errors has been reached in it. -/
theorem Script.length_errors_brokenBlock :
    (errors brokenBlock 0).length = maxParseErrors + 1 := by
  decide +kernel

end Skiff
