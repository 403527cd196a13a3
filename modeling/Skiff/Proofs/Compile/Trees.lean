import Skiff.Proofs.Compile.Pass
import Skiff.Proofs.Tree.All
import Skiff.Proofs.Tree.Imports

/-!
# Compilations of trees

What holds of single steps and of imports holds of all that is compiled. Compilations depend on what
importing does only where something is imported, so that they do with the list of all imports of a
tree what each single import does; and they give code that a pass knows. Both are shown together, by
recursion on the tree, one case for each construct.
-/

namespace Skiff

open List

namespace Compile

open Pass (Fact)

open Opcode (fits_two)

/-! ## Contexts -/

variable {onCycle : Span → String → Compile Fragment} {pass : Pass} {left right : List String}
  {facts : List Fact} {exits : Prop} {span : Span} {context context' : CompileContext}

/-- Two contexts in which the same may be written, and imports are compiled side by side. -/
structure Meets (onCycle : Span → String → Compile Fragment) (pass : Pass)
    (context context' : CompileContext) : Prop where
  inModule : context'.inModule = context.inModule
  inFunction : context'.inFunction = context.inFunction
  inLoop : context'.inLoop = context.inLoop
  imports {span : Span} (known : pass.blame span) (name : String) (exits : Prop) :
    Yields onCycle pass [name] [] (context.importModule span name) (context'.importModule span name)
      (.code exits)

theorem Meets.functionBody (same : Meets onCycle pass context context') :
    Meets onCycle pass context.functionBody context'.functionBody :=
  ⟨same.inModule, rfl, rfl, same.imports⟩

theorem Meets.loopBody (same : Meets onCycle pass context context') :
    Meets onCycle pass context.loopBody context'.loopBody :=
  ⟨same.inModule, same.inFunction, rfl, same.imports⟩

/-! ## Variables, assignments and loops -/

variable [laws : pass.Laws]

theorem Pass.may.part {node part : Node} (may : pass.may node)
    (member : part ∈ node.parts := by
      simp_all [Node.parts, Node.ofExpr, Node.ofStmt, Block.stmts]) : pass.may part :=
  laws.below may member

theorem yields_constant (known : pass.blame span) {value : Value} (data : pass.data value) :
    Yields onCycle pass [] facts (constant span value) (constant span value) (.code exits) :=
  (blames_constant known value).yields ⟨fun run ok _ => ⟨_, laws.constant _ run data ok⟩⟩

theorem yields_literal (known : pass.blame span) (value : Literal) :
    Yields onCycle pass [] facts (literal span value) (literal span value) (.code exits) := by
  cases value with
  | int n => exact yields_constant known (laws.number n)
  | float x => exact yields_constant known (laws.double x)
  | char c => exact yields_constant known (laws.character c)
  | string text =>
    exact .limit known rfl fun fits => yields_constant known (laws.text (of_decide_eq_true fits))
  | bool b => cases b <;> exact .pure fun _ => laws.instr rfl rfl rfl
  | undefined => exact .pure fun _ => laws.instr rfl rfl rfl

theorem yields_name (known : pass.blame span) (ident : String) :
    Yields onCycle pass [] facts (name span ident) (name span ident) (.code exits) := by
  refine (yields_resolve ident).before fun found => ?_
  cases found with
  | none => exact .fail known rfl
  | some found => exact (blames_load known found.1).yields (gives_load _ fun known => known.1 _ rfl)

variable {target : Expr}

theorem yields_targetSymbol (known : pass.blame target.span) (name : String) (op : AssignOp)
    (isFunction : Bool) :
    Yields onCycle pass [] facts (targetSymbol target name op isFunction)
      (targetSymbol target name op isFunction) .knows := by
  refine (yields_resolve name).before fun found => ?_
  split
  · exact .fail known rfl
  · split
    · exact (yields_define name).before fun id => .pure fun known => known.1
    · exact .pure fun _ _ member => absurd member (Option.not_mem_none _)
  · exact .pure fun known => known.1
  · exact .fail known rfl

/-- The key or value of an iterator is bound to a name. -/
theorem yields_bindElement (known : pass.blame span) {iterator : Nat} {ident : Ident}
    (known' : pass.blame ident.span) {op : Opcode} (plain : op.isPlain = true)
    (onward : op.isJump = false) (fits : op.fits [] = true) (exits : Prop)
    (knows : ∀ {s w}, pass.Knows s w facts → pass.knows s w iterator) :
    Yields onCycle pass [] facts (bindElement span iterator ident op)
      (bindElement span iterator ident op) (.code exits) := by
  unfold bindElement
  split
  · exact .pure fun _ => laws.empty
  · exact (yields_define _).before fun id =>
      .before ((blames_load known iterator).yields (gives_load _ fun known => knows known.2))
        fun _ =>
      .map ((blames_storeNew known' id).yields (gives_storeNew _ fun known => known.2.1 _ rfl))
        fun known => laws.append (laws.append known.2.1 (laws.instr plain onward fits)) known.1

variable {body body' : Compile Fragment}

theorem yields_forEach (known : pass.blame span) {key value : Ident}
    (keyKnown : pass.blame key.span)
    (valueKnown : pass.blame value.span) {iterable iterable' : Compile Fragment} {inside : Prop}
    (runs : ∀ {facts}, Yields onCycle pass left facts iterable iterable' (.code exits))
    (inner : ∀ {facts}, Yields onCycle pass right facts body body' (.code inside)) :
    Yields onCycle pass (left ++ right) facts (forEach span key value iterable body)
      (forEach span key value iterable' body') (.code exits) := by
  refine (yields_defineHidden _).before fun iterator =>
    runs.bind fun _ =>
    .before ((blames_storeNew known iterator).yields (gives_storeNew exits fun known =>
      known.2.1 _ rfl)) fun _ =>
    .before ((blames_load known iterator).yields (gives_load exits fun known => known.2.2.1 _ rfl))
      fun _ =>
    .before (yields_bindElement known keyKnown rfl rfl rfl inside fun known =>
      known.2.2.2.1 _ rfl) fun _ =>
    .before (yields_bindElement known valueKnown rfl rfl rfl inside fun known =>
      known.2.2.2.2.1 _ rfl) fun _ => inner.map ?_
  rintro _ _ _ ⟨body, value, key, load, store, iterable, -⟩
  refine laws.append (laws.append (laws.append iterable (laws.instr rfl rfl rfl)) store)
    (laws.loop (fun code member => ?_) (laws.append (laws.append key value) body) laws.empty)
  cases member
  exact laws.append load (laws.instr rfl rfl rfl)

theorem yields_assign (known : pass.blame span) (known' : pass.blame target.span) {op : AssignOp}
    {isFunction : Bool} {olds values chosen : List String}
    {old old' value value' selectors selectors' : Compile Fragment}
    (before : ∀ {facts}, Yields onCycle pass olds facts old old' (.code exits))
    (given : ∀ {facts}, Yields onCycle pass values facts value value' (.code exits))
    (chooses : ∀ {facts}, Yields onCycle pass chosen facts selectors selectors' (.code exits)) :
    Yields onCycle pass (op.imports olds values chosen) facts
      (assign span target op isFunction old value selectors)
      (assign span target op isFunction old' value' selectors') (.code exits) := by
  unfold assign
  cases target? target with
  | none => exact .fail known' rfl
  | some found =>
    obtain ⟨name, count⟩ := found
    refine .limit known rfl fun _ => .limit known rfl fun short =>
      (yields_targetSymbol known' name op isFunction).before fun defined => ?_
    have last {facts : List Fact} (code : Fragment) (id : Nat)
        (here : ∀ {s w}, pass.Knows s w facts → pass.code exits s w code ∧ pass.knows s w id) :
        Yields onCycle pass chosen facts
          (do
            let selectorCode ← selectors
            let storeCode ← store span target op id count
            pure (code ++ selectorCode ++ storeCode))
          (do
            let selectorCode ← selectors'
            let storeCode ← store span target op id count
            pure (code ++ selectorCode ++ storeCode)) (.code exits) := by
      refine chooses.andThen fun _ => .map ((blames_store known known' op id count).yields
        (gives_store exits ?_ (of_decide_eq_true short))) ?_
      · exact fun known => (here known.2).2
      · exact fun known => laws.append (laws.append (here known.2.2).1 known.2.1) known.1
    -- The symbol of the target is known, or a new one behind the value.
    cases op with
    | update op =>
      refine before.bind fun olds => given.bind fun values => .skip ?_
      cases defined with
      | some id => exact .skip (last _ id fun known => ⟨laws.append (laws.append known.2.1 known.1)
          (number_instr op), known.2.2.1 id rfl⟩)
      | none => exact (yields_define name).before fun id => last _ id fun known =>
          ⟨laws.append (laws.append known.2.2.1 known.2.1) (number_instr op), known.1 id rfl⟩
    | assign | define =>
      refine given.bind fun code => ?_
      cases defined with
      | some id => exact .skip (last code id fun known => ⟨known.1, known.2.1 id rfl⟩)
      | none =>
        exact (yields_define name).before fun id => last code id fun known =>
          ⟨known.2.1, known.1 id rfl⟩

/-! ## Trees -/

/-- Code of a context, which has exits inside of loops. -/
abbrev codeIn (context : CompileContext) : Fragment → Fact := .code (context.inLoop = true)

mutual

theorem yields_expr {context context' : CompileContext}
    (same : Meets onCycle pass context context') :
    (e : Expr) → {facts : List Fact} → pass.may (.expr e) → (pass.checks → e.All pass.node) →
    Yields onCycle pass e.imports facts (expr context e) (expr context' e) (codeIn context)
  | .literal span value, facts, may, all => by
    rw [expr, expr]
    exact yields_literal (laws.here may) value
  | .name span ident, facts, may, all => by
    rw [expr, expr]
    exact yields_name (laws.here may) ident
  | .array span items, facts, may, all => by
    rw [expr, expr]
    exact .limit (laws.here may) rfl fun small =>
      (yields_exprs same items #[] (fun _ member => may.part) (all · |>.2) fun _ => laws.empty).map
        fun known => laws.append known.1
          (laws.instr rfl rfl (fits_two rfl (of_decide_eq_true small)))
  | .map span pairs, facts, may, all => by
    rw [expr, expr]
    exact .limit (laws.here may) rfl fun small =>
      (yields_entries same pairs #[]
        (fun _ member _ inside => may.part (mem_flatMap.2 ⟨_, member, inside⟩)) (all · |>.2)
        (laws.keys fun c => (all c).1) fun _ => laws.empty).map
        fun known => laws.append known.1
          (laws.instr rfl rfl (fits_two rfl (of_decide_eq_true small)))
  | .func span params variadic body, facts, may, all => by
    rw [expr, expr]
    have inner : Yields onCycle pass body.imports [] (block context.functionBody body)
      (block context'.functionBody body) (.code (false = true)) :=
      yields_block same.functionBody body may.part (all · |>.2)
    exact yields_function (laws.here may) inner
  | .unary span op operand, facts, may, all => by
    rw [expr, expr]
    refine (yields_expr same operand may.part (all · |>.2)).map fun known =>
      laws.append known.1 ?_
    cases op with
    | plus => exact laws.empty
    | _ => exact laws.instr rfl rfl rfl
  | .binary span op left right, facts, may, all => by
    rw [expr, expr]
    exact (yields_expr same left may.part (all · |>.2.1)).bind fun _ =>
      (yields_expr same right may.part (all · |>.2.2)).map fun known =>
        code_binary known.2.1 known.1
  | .cond span test yes no, facts, may, all => by
    rw [expr, expr]
    exact (yields_expr same test may.part (all · |>.2.1)).bind fun _ =>
      (yields_expr same yes may.part (all · |>.2.2.1)).bind fun _ =>
        (yields_expr same no may.part (all · |>.2.2.2)).map fun known =>
          laws.choice known.2.2.1 known.2.1 known.1
  | .call span callee (.mk positional spread named namedSpread), facts, may, all => by
    rw [expr, expr]
    refine .limit (laws.here may) rfl fun small =>
      (yields_expr same callee may.part (all · |>.2.1)).bind fun code => .bind
      (yields_exprs same positional code (fun _ member => may.part) (all · |>.2.2.1) fun known =>
        known.1) fun code => ?_
    have call {s w} : pass.code (context.inLoop = true) s w (Fragment.instr span .call
        [positional.length, callFlags spread named namedSpread]) :=
      laws.instr rfl rfl (fits_call (of_decide_eq_true small))
    have last {facts : List Fact} (code : Fragment)
        (here : ∀ {s w}, pass.Knows s w facts → pass.code (context.inLoop = true) s w code) :=
      (yields_optional same namedSpread code #[] (fun _ member => may.part) (all · |>.2.2.2.2) here
        laws.empty).map fun known => laws.append known.1 call
    cases named with
    | nil => exact .skip (last code fun known => known.1)
    | cons arg named =>
      refine .bind (yields_namedArgs same (arg :: named) code
        (fun _ member _ inside => may.part ?_) (all · |>.2.2.2.1) (laws.names fun c => (all c).1)
        fun known => known.1) fun code =>
          .skip (last _ fun known => laws.namedMap (fun c => (all c).1) known.1)
      have listed := mem_flatMap.2 ⟨_, member, inside⟩
      simp only [Node.parts, Node.ofExpr, mem_cons, mem_append, listed, true_or, or_true]
  | .index span object index, facts, may, all => by
    rw [expr, expr]
    exact (yields_expr same object may.part (all · |>.2.1)).bind fun _ =>
      (yields_expr same index may.part (all · |>.2.2)).map fun known =>
        laws.append (laws.append known.2.1 known.1) (laws.instr rfl rfl rfl)
  | .select span object field, facts, may, all => by
    rw [expr, expr]
    have named : pass.may (.ident field) := may.part
    exact (yields_expr same object may.part (all · |>.2)).andThen fun _ =>
      (yields_constant (laws.here named) (laws.field fun c => (all c).1)
       ).map fun known =>
        laws.append (laws.append known.2.1 known.1) (laws.instr rfl rfl rfl)
  | .slice span object low high, facts, may, all => by
    rw [expr, expr]
    exact (yields_expr same object may.part (all · |>.2.1)).bind fun code => .bind
      (yields_optional same low code _ (fun _ member => may.part) (all · |>.2.2.1)
        (fun known => known.1) (laws.instr rfl rfl rfl)) fun code => .map
      (yields_optional same high code _ (fun _ member => may.part) (all · |>.2.2.2)
        (fun known => known.1) (laws.instr rfl rfl rfl)) fun known =>
        laws.append known.1 (laws.instr rfl rfl rfl)
  | .paren span inner, facts, may, all => by
    rw [expr, expr]
    exact yields_expr same inner may.part (all · |>.2)
  | .error span inner, facts, may, all | .immutable span inner, facts, may, all => by
    rw [expr, expr]
    exact (yields_expr same inner may.part (all · |>.2)).map fun known =>
      laws.append known.1 (laws.instr rfl rfl rfl)
  | .importModule span name, facts, may, all => by
    rw [expr, expr]
    exact (same.imports (laws.here may) name _).anyway

theorem yields_exprs {context context' : CompileContext}
    (same : Meets onCycle pass context context') :
    (items : List Expr) → (code : Fragment) → {facts : List Fact} →
    (∀ item ∈ items, pass.may (.expr item)) → (pass.checks → Expr.AllItems pass.node items) →
    (∀ {s w}, pass.Knows s w facts → pass.code (context.inLoop = true) s w code) →
    Yields onCycle pass (Expr.importsOfItems items) facts (exprs context items code)
      (exprs context' items code) (codeIn context)
  | [], code, facts, may, all, here => by
    rw [exprs, exprs]
    exact .pure here
  | item :: items, code, facts, may, all, here => by
    rw [exprs, exprs]
    rw [forall_mem_cons] at may
    exact (yields_expr same item may.1 (all · |>.1)).bind fun _ =>
      yields_exprs same items _ may.2 (all · |>.2) fun known => laws.append (here known.2) known.1

theorem yields_entries {context context' : CompileContext}
    (same : Meets onCycle pass context context') :
    (pairs : List Entry) → (code : Fragment) → {facts : List Fact} →
    (∀ pair ∈ pairs, ∀ part ∈ Node.ofEntry pair, pass.may part) →
    (pass.checks → Expr.AllEntries pass.node pairs) →
    (∀ key span value, .mk key span value ∈ pairs → pass.data (.string key)) →
    (∀ {s w}, pass.Knows s w facts → pass.code (context.inLoop = true) s w code) →
    Yields onCycle pass (Expr.importsOfEntries pairs) facts (entries context pairs code)
      (entries context' pairs code) (codeIn context)
  | [], code, facts, may, all, data, here => by
    rw [entries, entries]
    exact .pure here
  | .mk key span value :: pairs, code, facts, may, all, data, here => by
    rw [entries, entries]
    rw [forall_mem_cons] at may
    have leaf : pass.may (.leaf span) := may.1 _ (mem_cons_self ..)
    exact (yields_constant (laws.here leaf) (data _ _ _ (mem_cons_self ..))
     ).before fun _ =>
      (yields_expr same value (may.1 _ (by simp [Node.ofEntry])) (all · |>.1)).bind fun _ =>
      yields_entries same pairs _ may.2 (all · |>.2)
        (fun key span value member => data key span value (mem_cons_of_mem _ member))
        fun known => laws.append (laws.append (here known.2.2) known.2.1) known.1

theorem yields_namedArgs {context context' : CompileContext}
    (same : Meets onCycle pass context context') :
    (args : List NamedArg) → (code : Fragment) → {facts : List Fact} →
    (∀ arg ∈ args, ∀ part ∈ Node.ofNamed arg, pass.may part) →
    (pass.checks → Expr.AllNamed pass.node args) →
    (∀ (name : Ident) value, .mk name value ∈ args → pass.data (.string name.name)) →
    (∀ {s w}, pass.Knows s w facts → pass.code (context.inLoop = true) s w code) →
    Yields onCycle pass (Expr.importsOfNamed args) facts (namedArgs context args code)
      (namedArgs context' args code) (codeIn context)
  | [], code, facts, may, all, data, here => by
    rw [namedArgs, namedArgs]
    exact .pure here
  | .mk name value :: args, code, facts, may, all, data, here => by
    rw [namedArgs, namedArgs]
    rw [forall_mem_cons] at may
    have ident : pass.may (.ident name) := may.1 _ (mem_cons_self ..)
    exact (yields_constant (laws.here ident) (data _ _ (mem_cons_self ..))
     ).before fun _ =>
      (yields_expr same value (may.1 _ (by simp [Node.ofNamed])) (all · |>.1)).bind fun _ =>
      yields_namedArgs same args _ may.2 (all · |>.2)
        (fun name value member => data name value (mem_cons_of_mem _ member))
        fun known => laws.append (laws.append (here known.2.2) known.2.1) known.1

theorem yields_optional {context context' : CompileContext}
    (same : Meets onCycle pass context context') :
    (value : Option Expr) → (code missing : Fragment) → {facts : List Fact} →
    (∀ item ∈ value, pass.may (.expr item)) → (pass.checks → Expr.AllOptional pass.node value) →
    (∀ {s w}, pass.Knows s w facts → pass.code (context.inLoop = true) s w code) →
    (∀ {s w}, pass.code (context.inLoop = true) s w missing) →
    Yields onCycle pass (Expr.importsOfOptional value) facts (optional context value code missing)
      (optional context' value code missing) (codeIn context)
  | none, code, missing, facts, may, all, here, absent => by
    rw [optional, optional]
    exact .pure fun known => laws.append (here known) absent
  | some value, code, missing, facts, may, all, here, absent => by
    rw [optional, optional]
    exact (yields_expr same value (may value rfl) all).map fun known =>
      laws.append (here known.2) known.1

theorem yields_selectors {context context' : CompileContext}
    (same : Meets onCycle pass context context') :
    (target : Expr) → {facts : List Fact} → pass.may (.expr target) →
    (pass.checks → target.All pass.node) →
    Yields onCycle pass target.selectorImports facts (selectors context target)
      (selectors context' target) (codeIn context)
  | .index span object index, facts, may, all => by
    rw [selectors, selectors]
    exact (yields_selectors same object may.part (all · |>.2.1)).bind fun _ =>
      (yields_expr same index may.part (all · |>.2.2)).map fun known =>
        laws.append known.2.1 known.1
  | .select span object field, facts, may, all => by
    rw [selectors, selectors]
    have named : pass.may (.ident field) := may.part
    exact (yields_selectors same object may.part (all · |>.2)).andThen fun _ =>
      (yields_constant (laws.here named) (laws.field fun c => (all c).1)
       ).map fun known => laws.append known.2.1 known.1
  | .literal .., _, _, _ | .name .., _, _, _ | .array .., _, _, _ | .map .., _, _,
    _ | .func .., _, _, _
  | .unary .., _, _, _ | .binary .., _, _, _ | .cond .., _, _, _ | .call .., _, _,
    _ | .slice .., _, _, _
  | .paren .., _, _, _ | .error .., _, _, _ | .immutable .., _, _, _ | .importModule .., _, _, _ =>
    .pure fun _ => laws.empty

theorem yields_block {context context' : CompileContext}
    (same : Meets onCycle pass context context') :
    (body : Block) → {facts : List Fact} → pass.may (.block body) →
      (pass.checks → body.All pass.node) →
    Yields onCycle pass body.imports facts (block context body) (block context' body)
      (codeIn context)
  | .mk span body, facts, may, all => by
    rw [block, block]
    exact (yields_stmts same body #[] (fun _ member => may.part) all fun _ => laws.empty).inScope

theorem yields_stmts {context context' : CompileContext}
    (same : Meets onCycle pass context context') :
    (body : List Stmt) → (code : Fragment) → {facts : List Fact} →
    (∀ item ∈ body, pass.may (.stmt item)) → (pass.checks → Stmt.AllItems pass.node body) →
    (∀ {s w}, pass.Knows s w facts → pass.code (context.inLoop = true) s w code) →
    Yields onCycle pass (Stmt.importsOfItems body) facts (stmts context body code)
      (stmts context' body code) (codeIn context)
  | [], code, facts, may, all, here => by
    rw [stmts, stmts]
    exact .pure here
  | item :: items, code, facts, may, all, here => by
    rw [stmts, stmts]
    rw [forall_mem_cons] at may
    exact (yields_stmt same item may.1 (all · |>.1)).bind fun _ =>
      yields_stmts same items _ may.2 (all · |>.2) fun known => laws.append (here known.2) known.1

theorem yields_optionalStmt {context context' : CompileContext}
    (same : Meets onCycle pass context context') :
    (body : Option Stmt) → {facts : List Fact} → (∀ item ∈ body, pass.may (.stmt item)) →
    (pass.checks → Stmt.AllOptional pass.node body) →
    Yields onCycle pass (Stmt.importsOfOptional body) facts (optionalStmt context body)
      (optionalStmt context' body) (codeIn context)
  | none, facts, may, all => by
    rw [optionalStmt, optionalStmt]
    exact .pure fun _ => laws.empty
  | some body, facts, may, all => by
    rw [optionalStmt, optionalStmt]
    exact yields_stmt same body (may body rfl) all

theorem yields_stmt {context context' : CompileContext}
    (same : Meets onCycle pass context context') :
    (body : Stmt) → {facts : List Fact} → pass.may (.stmt body) →
      (pass.checks → body.All pass.node) →
    Yields onCycle pass body.imports facts (stmt context body) (stmt context' body) (codeIn context)
  | .expr span value, facts, may, all => by
    rw [stmt, stmt]
    exact (yields_expr same value may.part all).map fun known =>
      laws.append known.1 (laws.instr rfl rfl rfl)
  | .assign span op target value, facts, may, all => by
    rw [stmt_assign, stmt_assign]
    have known : pass.may (.expr target) := may.part
    exact yields_assign (laws.here may) (laws.here known)
      (yields_expr same target known (all · |>.1)) (yields_expr same value may.part (all · |>.2))
      (yields_selectors same target known (all · |>.1))
  | .count span up target, facts, may, all => by
    rw [stmt, stmt, Stmt.imports]
    have known : pass.may (.expr target) := may.part
    exact yields_assign (laws.here may) (laws.here known) (yields_expr same target known all)
      (yields_constant (laws.here may) (laws.number 1))
      (yields_selectors same target known all)
  | .block body, facts, may, all => by
    rw [stmt, stmt]
    exact yields_block same body may.part all
  | .cond span init test yes none, facts, may, all => by
    rw [stmt, stmt]
    exact .inScope ((yields_optionalStmt same init (fun _ member => may.part) (all · |>.1)).bind
      fun _ => (yields_expr same test may.part (all · |>.2.1)).bind fun _ =>
      (yields_block same yes may.part (all · |>.2.2.1)).bind fun _ => .pure fun known =>
        laws.append known.2.2.1 (laws.guarded known.2.1 known.1))
  | .cond span init test yes (some no), facts, may, all => by
    rw [stmt, stmt]
    exact .inScope ((yields_optionalStmt same init (fun _ member => may.part) (all · |>.1)).bind
      fun _ => (yields_expr same test may.part (all · |>.2.1)).bind fun _ =>
      (yields_block same yes may.part (all · |>.2.2.1)).bind fun _ =>
      (yields_stmt same no may.part (all · |>.2.2.2)).map fun known =>
        laws.append known.2.2.2.1 (laws.choice known.2.2.1 known.2.1 known.1))
  | .loop span init none post body, facts, may, all => by
    rw [stmt, stmt]
    change Yields onCycle pass (Stmt.importsOfOptional init ++ (body.imports ++
      Stmt.importsOfOptional post)) _ _ _ _
    exact .inScope ((yields_optionalStmt same init (fun _ member => may.part) (all · |>.1)).bind
      fun _ => .skip ((yields_block same.loopBody body may.part (all · |>.2.2.2)).bind
      fun _ => (yields_optionalStmt same post (fun _ member => may.part) (all · |>.2.2.1)).map
        fun known => laws.append known.2.2.1 (laws.loop
          (fun _ member => absurd member (Option.not_mem_none _)) known.2.1 known.1)))
  | .loop span init (some test) post body, facts, may, all => by
    rw [stmt, stmt]
    refine .inScope ((yields_optionalStmt same init (fun _ member => may.part) (all · |>.1)).bind
      fun _ => (yields_expr same test may.part (all · |>.2.1)).bind fun _ => .skip
      ((yields_block same.loopBody body may.part (all · |>.2.2.2)).bind fun _ =>
      (yields_optionalStmt same post (fun _ member => may.part) (all · |>.2.2.1)).map
        fun known =>
          laws.append known.2.2.2.1 (laws.loop (fun code member => ?_) known.2.1 known.1)))
    cases member
    exact known.2.2.1
  | .forEach span key value iterable body, facts, may, all => by
    rw [stmt, stmt]
    have named : pass.may (.ident value) := may.part
    have keyed : pass.blame key.span := by
      by_cases shared : key.span = value.span
      · exact shared ▸ laws.here named
      · exact laws.here (may.part : pass.may (.ident key))
    exact (yields_forEach (laws.here may) keyed (laws.here named)
      (yields_expr same iterable may.part (all · |>.1))
      (yields_block same.loopBody body may.part (all · |>.2))).inScope
  | .result span none, facts, may, all => by
    rw [stmt, stmt]
    exact Yields.get.before fun _ => .limit (laws.here may) rfl
      fun _ => .pure fun _ => laws.instr rfl rfl rfl
  | .result span (some value), facts, may, all => by
    rw [stmt, stmt]
    exact Yields.get.before fun _ => .limit (laws.here may) rfl
      fun _ => (yields_expr same value may.part all).map fun known =>
        laws.append known.1 (laws.instr rfl rfl rfl)
  | .publish span value, facts, may, all => by
    rw [stmt, stmt, same.inFunction, same.inModule]
    exact .limit (laws.here may) rfl fun _ => .limit (laws.here may) rfl fun _ =>
      (yields_expr same value may.part all).map fun known =>
        laws.append (laws.append known.1 (laws.instr rfl rfl rfl)) (laws.instr rfl rfl rfl)
  | .leave span, facts, may, all | .next span, facts, may, all => by
    rw [stmt, stmt, same.inLoop]
    exact .limit (laws.here may) rfl fun inside => .pure fun _ => laws.exit inside
  | .empty span, facts, may, all => by
    rw [stmt, stmt]
    exact .pure fun _ => laws.empty

end

/-! ## Statements that are compiled -/

/-- What imports give where they succeed. -/
structure Pass.GivesImports (pass : Pass) (importModule : Span → String → Compile Fragment) :
    Prop where
  run {span name s code t w} (exits : Prop) : importModule span name s = .ok code t → pass.ok s w →
    ∃ w', pass.step [name] s w t w' ∧ pass.code exits t w' code

/-- Statements that are compiled have code that a pass knows, if it says nothing of those that are
not. -/
theorem Pass.code_stmts (imports : pass.GivesImports context.importModule) {body : List Stmt}
    (all : pass.checks → Stmt.AllItems pass.node body) {s t : CompileState} {code : Fragment}
    (run : stmts context body #[] s = .ok code t) {w : pass.World} (ok : pass.ok s w)
    (silent : (∀ names w error, pass.fails names w error) ∧ (∀ node, pass.may node) ∧
      ∀ name, pass.good name := by
        exact ⟨fun _ _ _ => trivial, fun _ => trivial, fun _ => trivial⟩) :
    ∃ w', pass.step (Stmt.importsOfItems body) s w t w' ∧
      pass.code (context.inLoop = true) t w' code := by
  have same : Meets (fun span path => fail (.cyclicImport path) span) pass context context := by
    refine ⟨rfl, rfl, rfl, fun _ name exits => ⟨fun _ run ok _ => ⟨run, imports.run exits run ok⟩,
      fun {s error t w} _ run _ _ => ?_⟩⟩
    rw [run]
    exact ⟨.refl error t, silent.1 ..⟩
  have yields : Yields _ pass _ [] _ _ (codeIn context) :=
    yields_stmts same body #[] (fun _ _ => silent.2.1 _) all fun _ => laws.empty
  exact (yields.ok (fun _ _ => silent.2.2 _) run ok trivial).2

end Compile

end Skiff
