import Skiff.Proofs.Compile.Outcomes
import Skiff.Proofs.Tree.Nodes

/-!
# Passes over compilations

Several things are shown of all that is compiled: that code leads to its end, that modules keep to
themselves, and that what is compiled may occur. Each of them says what is known of the states of a
compilation, of the symbols that can be named, and of the code. What it has to offer for single
steps is collected here, and followed through what is put together from them.
-/

namespace Skiff

open List Opcode

namespace Opcode

/-- Whether an instruction loads or stores a global variable. -/
def isGlobal : Opcode → Bool
  | getGlobal | setGlobal | setGlobalAt => true
  | _ => false

/-- An instruction that names neither a constant nor a global variable. -/
def isPlain (op : Opcode) : Bool := !op.isGlobal && op != .const && op != .closure

variable {op : Opcode} {operand first second : Nat}

theorem fits_one (widths : op.widths = [1]) (small : operand ≤ 0xFF) :
    op.fits [operand] = true := by
  rw [fits, widths, fitWidths, fitWidths, Bool.and_true]
  exact decide_eq_true (Nat.lt_succ_of_le small)

theorem fits_two (widths : op.widths = [2]) (small : operand ≤ 0xFFFF) :
    op.fits [operand] = true := by
  rw [fits, widths, fitWidths, fitWidths, Bool.and_true]
  exact decide_eq_true (Nat.lt_succ_of_le small)

theorem fits_pair {width : Nat} (widths : op.widths = [width, 1])
    (small : first < 1 <<< (8 * width))
    (small' : second ≤ 0xFF) : op.fits [first, second] = true := by
  rw [fits, widths, fitWidths, fitWidths, fitWidths, Bool.and_true, Bool.and_eq_true]
  exact ⟨decide_eq_true small, decide_eq_true (Nat.lt_succ_of_le small')⟩

end Opcode

namespace Compile

/-- An instruction that loads or stores the variable in a slot. Global variables have wider
operands. -/
structure Slotted (symbol : Symbol) (op : Opcode) (operands : List Nat) : Prop where
  onward : op.isJump = false
  proper : operands.length = op.widths.length
  plain : symbol.storage ≠ .global → op.isPlain = true
  fits : (symbol.storage ≠ .global → symbol.index ≤ 0xFF) → op.fits operands = true

section
variable {symbol : Symbol} {op : Opcode} {operands : List Nat} {count : Nat}

theorem Slotted.global (isGlobal : symbol.storage = .global) (onward : op.isJump = false)
    (proper : operands.length = op.widths.length) (fits : op.fits operands = true) :
    Slotted symbol op operands :=
  ⟨onward, proper, absurd isGlobal, fun _ => fits⟩

variable (inner : symbol.storage ≠ .global) (plain : op.isPlain = true) (onward : op.isJump = false)
include inner plain onward

theorem Slotted.one (widths : op.widths = [1]) : Slotted symbol op [symbol.index] :=
  ⟨onward, by rw [widths]; rfl, fun _ => plain, fun small => fits_one widths (small inner)⟩

theorem Slotted.pair (widths : op.widths = [1, 1]) (short : count ≤ 0xFF) :
    Slotted symbol op [symbol.index, count] :=
  ⟨onward, by rw [widths]; rfl, fun _ => plain, fun small =>
    fits_pair widths (Nat.lt_succ_of_le (small inner)) short⟩

end

/-- What is known of the states of a compilation, in a world that grows with them, of symbols and of
code. Constants may be restricted, as well as the nodes that are compiled and the names that are
imported. -/
structure Pass where
  World : Type
  ok : CompileState → World → Prop
  /-- How one state follows from another where some names are imported. -/
  step : List String → CompileState → World → CompileState → World → Prop
  knows : CompileState → World → Nat → Prop := fun _ _ _ => True
  /-- The code behind which a state is reached; there may be loops to leave. -/
  code : Prop → CompileState → World → Fragment → Prop := fun _ _ _ _ => True
  data : Value → Prop := fun _ => True
  /-- Whether expressions have to fulfil something. -/
  checks : Prop := False
  node : Expr → Prop := fun _ => True
  may : Node → Prop := fun _ => True
  good : String → Prop := fun _ => True
  /-- The spans that errors are about. -/
  blame : Span → Prop := fun _ => True
  /-- How a compilation may fail where some names are imported. -/
  fails : List String → World → CompileError → Prop := fun _ _ _ => True

namespace Pass

/-- What single steps have to keep. -/
class Laws (pass : Pass) : Prop where
  ok {names s t w w'} : pass.step names s w t w' → pass.ok t w'
  refl {s w} : pass.ok s w → pass.step [] s w s w
  trans {left right s t u w w' w''} : pass.step left s w t w' → pass.step right t w' u w'' →
    pass.step (left ++ right) s w u w''
  later {names s t w w' exits code} : pass.step names s w t w' → pass.code exits s w code →
    pass.code exits t w' code := by intros; trivial
  stays {names s t w w' id} : pass.step names s w t w' → pass.knows s w id →
    pass.knows t w' id := by intros; trivial
  empty {s w exits} : pass.code exits s w #[] := by intros; trivial
  append {s w exits left right} : pass.code exits s w left → pass.code exits s w right →
    pass.code exits s w (left ++ right) := by intros; trivial
  instr {s w exits span op operands} : isPlain op = true → isJump op = false →
    fits op operands = true → pass.code exits s w (.instr span op operands) := by intros; trivial
  exit {s w} {exits : Prop} {span kind} : exits → pass.code exits s w (.exit span kind) := by
    intros; trivial
  choice {s w exits span test yes no} : pass.code exits s w test → pass.code exits s w yes →
    pass.code exits s w no → pass.code exits s w (.choice span test yes no) := by intros; trivial
  guarded {s w exits span test yes} : pass.code exits s w test → pass.code exits s w yes →
    pass.code exits s w (.guarded span test yes) := by intros; trivial
  shortCircuit {s w exits span op left right} : isJump op = true → pass.code exits s w left →
    pass.code exits s w right → pass.code exits s w (.shortCircuit span op left right) := by
      intros; trivial
  loop {s w exits inner span body post} {test : Option Fragment} :
    (∀ code ∈ test, pass.code exits s w code) → pass.code inner s w body →
    pass.code exits s w post → pass.code exits s w (.loop span test body post) := by intros; trivial
  define {name s id t w} : define name s = .ok id t → pass.ok s w →
    ∃ w', pass.step [] s w t w' ∧ pass.knows t w' id
  defineHidden {name s id t w} : defineHidden name s = .ok id t → pass.ok s w →
    ∃ w', pass.step [] s w t w' ∧ pass.knows t w' id
  resolve {name s found t w} : resolve name s = .ok found t → pass.ok s w →
    pass.step [] s w t w ∧ ∀ id depth, found = some (id, depth) → pass.knows t w id
  markAssigned {id s done t w} : markAssigned id s = .ok done t → pass.ok s w → pass.step [] s w t w
  slot {s w id op operands exits span} : pass.ok s w → pass.knows s w id →
    Slotted (s.table.symbol id) op operands → pass.code exits s w (.instr span op operands) := by
      intros; trivial
  constant {span value s code t w} (exits) : constant span value s = .ok code t → pass.data value →
    pass.ok s w → pass.step [] s w t w ∧ pass.code exits t w code
  enter {s : CompileState} {w} (block) : pass.ok s w → pass.ok (s.enter block) w
  leave {names} {s t : CompileState} {w w' block} : pass.ok s w →
    pass.step names (s.enter block) w t w' → pass.step names s w t.leave w'
  block {names} {s t : CompileState} {w w' exits code} : pass.step names (s.enter true) w t w' →
    pass.code exits t w' code → pass.code exits t.leave w' code := by intros; trivial
  captured {names} {s t : CompileState} {w w' id} :
    pass.ok s w → pass.step names (s.enter false) w t w' →
    id ∈ t.table.current.captured.toList → pass.knows t.leave w' id := by intros; trivial
  function {names} {s t u v x : CompileState} {w w'} {span : Span} {params : List Ident}
    {variadic body value index exits} :
    params.length ≤ 0xFF → pass.step names (s.enter false) w u w' →
      pass.code (false = true) u w' body →
    u.table.current.most ≤ 0x100 → u.table.current.captured.size ≤ 0xFF →
      pass.step [] u.leave w' v w' →
    newFunction u.table.current.captured.size body
      (functionOf span params variadic body u.table.current) v = .ok value x →
    addConstant span value x = .ok index t →
    ∃ w'', pass.step [] v w' t w'' ∧
      pass.code exits t w'' (pushFunction span index u.table.current.captured.size)
  number (n : Int64) : pass.data (.int n) := by intros; trivial
  double (x : Double) : pass.data (.float x) := by intros; trivial
  character (c : Char) : pass.data (.char c) := by intros; trivial
  text {text : String} : text.utf8ByteSize ≤ maxTextSize → pass.data (.string text) := by
    intros; trivial
  keys {span pairs} : (pass.checks → pass.node (.map span pairs)) →
    ∀ key span value, .mk key span value ∈ pairs → pass.data (.string key) := by intros; trivial
  field {span object} {field : Ident} : (pass.checks → pass.node (.select span object field)) →
    pass.data (.string field.name) := by intros; trivial
  names {span callee positional spread named namedSpread} :
    (pass.checks → pass.node (.call span callee (.mk positional spread named namedSpread))) →
    ∀ (name : Ident) value, .mk name value ∈ named → pass.data (.string name.name) := by
      intros; trivial
  namedMap {span callee positional spread named namedSpread s w exits code} :
    (pass.checks → pass.node (.call span callee (.mk positional spread named namedSpread))) →
    pass.code exits s w code → pass.code exits s w (namedMap span named code) := by intros; trivial
  here {node} : pass.may node → pass.blame node.span := by intros; trivial
  below {node part} : pass.may node → part ∈ node.parts → pass.may part := by intros; trivial
  faults {names w error} : error.fault.cycle? = none → pass.blame error.span →
    pass.fails names w error := by intros; trivial
  early {left right w error} : pass.fails left w error → pass.fails (left ++ right) w error := by
    intros; trivial
  late {left right s t w w' error} : pass.step left s w t w' → pass.fails right w' error →
    pass.fails (left ++ right) w error := by intros; trivial

/-- What becomes known on the way and stays known: code, or a symbol that can be named. -/
inductive Fact where
  | nothing
  | code (exits : Prop) (code : Fragment)
  | knows (found : Option Nat)

def Holds (pass : Pass) (s : CompileState) (w : pass.World) : Fact → Prop
  | .nothing => True
  | .code exits code => pass.code exits s w code
  | .knows found => ∀ id ∈ found, pass.knows s w id

def Knows (pass : Pass) (s : CompileState) (w : pass.World) : List Fact → Prop
  | [] => True
  | fact :: facts => pass.Holds s w fact ∧ pass.Knows s w facts

/-- What a compilation that imports nothing makes known where it succeeds. -/
structure Gives {α : Type} (pass : Pass) (facts : List Fact) (action : Compile α)
    (fact : α → Fact) : Prop where
  run {s value t w} : action s = .ok value t → pass.ok s w → pass.Knows s w facts →
    ∃ w', pass.step [] s w t w' ∧ pass.Holds t w' (fact value)

end Pass

open Pass (Fact)

/-- Two compilations side by side, the second of which may go on where the first one stops at a
cyclic import, and what the first one makes known. -/
structure Yields {α : Type} (onCycle : Span → String → Compile Fragment) (pass : Pass)
    (names : List String)
    (facts : List Fact) (action action' : Compile α) (fact : α → Fact) : Prop where
  ok {s value t w} : (∀ name ∈ names, pass.good name) → action s = .ok value t → pass.ok s w →
    pass.Knows s w facts →
    action' s = .ok value t ∧ ∃ w', pass.step names s w t w' ∧ pass.Holds t w' (fact value)
  failed {s error t w} : (∀ name ∈ names, pass.good name) → action s = .error error t →
    pass.ok s w →
    pass.Knows s w facts → GoesOn onCycle error t (action' s) ∧ pass.fails names w error

variable {α β : Type} {onCycle : Span → String → Compile Fragment} {pass : Pass} {exits : Prop}
  {names : List String} {s t u : CompileState} {w w' : pass.World} {span : Span}
  {code left right : Fragment} {facts : List Fact} {action action' : Compile α}
  {next next' : α → Compile β} {fact : α → Fact} {last : β → Fact} {id : Nat} {name : String}
  {fault : CompileFault} {done : Unit}

namespace Yields

theorem fail (known : pass.blame span) (acyclic : fault.cycle? = none) [laws : pass.Laws] :
    Yields onCycle pass names facts (Compile.fail fault span) (Compile.fail fault span) fact := by
  refine ⟨fun _ run => (by cases run), fun _ run _ _ => ?_⟩
  cases run
  exact ⟨.same acyclic, laws.faults acyclic known⟩

theorem limit {holds : Bool} {next next' : Unit → Compile β} (known : pass.blame span)
    (acyclic : fault.cycle? = none) [pass.Laws]
    (rest : holds = true → Yields onCycle pass names facts (next ()) (next' ()) last) :
    Yields onCycle pass names facts (Compile.limit holds fault span >>= next)
      (Compile.limit holds fault span >>= next') last := by
  unfold Compile.limit
  cases holds with
  | true => exact rest rfl
  | false => exact fail known acyclic

theorem anyway (yields : Yields onCycle pass names [] action action' fact) :
    Yields onCycle pass names facts action action' fact :=
  ⟨fun good run ok _ => yields.ok good run ok trivial, fun good run ok _ =>
    yields.failed good run ok trivial⟩

/-- A value that is known already. -/
theorem skip {value : α} (rest : Yields onCycle pass names facts (next value) (next' value) last) :
    Yields onCycle pass names facts (Pure.pure value >>= next) (Pure.pure value >>= next') last :=
  rest

end Yields

theorem checkSlot_global {symbol : Symbol} (run : checkSlot span symbol s = .ok done t)
    (isGlobal : symbol.storage = .global) : symbol.index ≤ 0xFFFF := by
  rw [checkSlot, isGlobal] at run
  exact of_decide_eq_true (limit_eq_ok.mp run).1

section
variable [laws : pass.Laws]

theorem Pass.keeps (step : pass.step names s w t w') (known : pass.Knows s w facts) :
    pass.Knows t w' facts := by
  induction facts with
  | nil => trivial
  | cons fact facts ih =>
    refine ⟨?_, ih known.2⟩
    cases fact with
    | nothing => trivial
    | code exits code => exact laws.later step known.1
    | knows found => exact fun id member => laws.stays step (known.1 id member)

theorem Blames.yields (blames : Blames pass.blame action) (gives : pass.Gives facts action fact) :
    Yields onCycle pass [] facts action action fact := by
  refine ⟨fun _ run ok known => ⟨run, gives.run run ok known⟩, fun _ run _ _ => ?_⟩
  obtain ⟨acyclic, known⟩ := blames.failed run
  rw [run]
  exact ⟨.same acyclic, laws.faults acyclic known⟩

namespace Yields

theorem pure {value : α} (holds : ∀ {s w}, pass.Knows s w facts → pass.Holds s w (fact value)) :
    Yields onCycle pass [] facts (Pure.pure value) (Pure.pure value) fact := by
  refine Blames.pure.yields ⟨fun {s result t w} run ok known => ?_⟩
  obtain ⟨rfl, rfl⟩ := pure_eq_ok.mp run
  exact ⟨w, laws.refl ok, holds known⟩

theorem ends {value : α} :
    Yields onCycle pass [] facts (Pure.pure value) (Pure.pure value) fun _ => .nothing :=
  pure fun _ => trivial

theorem get : Yields onCycle pass [] facts MonadState.get MonadState.get fun _ => .nothing := by
  refine Blames.get.yields ⟨fun {s value t w} run ok _ => ?_⟩
  obtain ⟨-, rfl⟩ := get_eq_ok.mp run
  exact ⟨w, laws.refl ok, trivial⟩

section
variable {left right : List String}

theorem bind (first : Yields onCycle pass left facts action action' fact)
    (rest : ∀ value, Yields onCycle pass right (fact value :: facts) (next value)
    (next' value) last) :
    Yields onCycle pass (left ++ right) facts (action >>= next) (action' >>= next') last := by
  constructor
  · intro s value t w good run ok known
    obtain ⟨good, good'⟩ := forall_mem_append.1 good
    rw [bind_eq_ok] at run
    obtain ⟨between, u, one, two⟩ := run
    obtain ⟨one', w', step, here⟩ := first.ok good one ok known
    obtain ⟨two', w'', step', there⟩ :=
      (rest between).ok good' two (laws.ok step) ⟨here, Pass.keeps step known⟩
    rw [bind_ok one']
    exact ⟨two', w'', laws.trans step step', there⟩
  · intro s error t w good run ok known
    obtain ⟨good, good'⟩ := forall_mem_append.1 good
    rw [bind_eq_error] at run
    obtain failed | ⟨between, u, one, two⟩ := run
    · obtain ⟨goesOn, fails⟩ := first.failed good failed ok known
      exact ⟨goesOn.bind, laws.early fails⟩
    · obtain ⟨one', w', step, here⟩ := first.ok good one ok known
      obtain ⟨goesOn, fails⟩ :=
        (rest between).failed good' two (laws.ok step) ⟨here, Pass.keeps step known⟩
      rw [bind_ok one']
      exact ⟨goesOn, laws.late step fails⟩

end

/-- What comes first imports nothing. -/
theorem before (first : Yields onCycle pass [] facts action action' fact)
    (rest : ∀ value, Yields onCycle pass names (fact value :: facts) (next value)
    (next' value) last) :
    Yields onCycle pass names facts (action >>= next) (action' >>= next') last :=
  first.bind rest

/-- What comes last imports nothing. -/
theorem andThen (first : Yields onCycle pass names facts action action' fact)
    (rest : ∀ value, Yields onCycle pass [] (fact value :: facts) (next value) (next' value) last) :
    Yields onCycle pass names facts (action >>= next) (action' >>= next') last := by
  have both := first.bind rest
  rwa [append_nil] at both

theorem map {build : α → Fragment} (first : Yields onCycle pass names facts action action' fact)
    (holds : ∀ {value s w}, pass.Knows s w (fact value :: facts) →
    pass.code exits s w (build value)) :
    Yields onCycle pass names facts (action >>= fun value => Pure.pure (build value))
      (action' >>= fun value => Pure.pure (build value)) (.code exits) :=
  first.andThen fun _ => pure holds

/-- A compilation that runs in a scope of its own, with something behind it. -/
theorem nested (block : Bool) {body body' : Compile α} (outer : Compile α → Compile β)
    (inner : Yields onCycle pass names [] body body' fact)
    (enters : ∀ {s w}, pass.ok s w → ∃ u w₀ rest, pass.step [] (s.enter block) w u w₀ ∧
      (∀ body, outer body s = (body >>= rest) u) ∧ ∀ value, Blames pass.blame (rest value) ∧
        ∀ {t w' result v}, pass.step names (s.enter block) w t w' → pass.Holds t w' (fact value) →
          rest value t = .ok result v → ∃ w'', pass.step names s w v w'' ∧
            pass.Holds v w'' (last result)) :
    Yields onCycle pass names facts (outer body) (outer body') last := by
  constructor
  · intro s result v w good run ok _
    obtain ⟨u, w₀, rest, step, same, behind⟩ := enters ok
    rw [same, bind_eq_ok] at run
    obtain ⟨value, t, one, two⟩ := run
    obtain ⟨one', w', step', here⟩ := inner.ok good one (laws.ok step) trivial
    rw [same, bind_ok one']
    exact ⟨two, (behind value).2 (laws.trans step step') here two⟩
  · intro s error t w good run ok _
    obtain ⟨u, w₀, rest, step, same, behind⟩ := enters ok
    rw [same, bind_eq_error] at run
    obtain failed | ⟨value, v, one, two⟩ := run
    · obtain ⟨goesOn, fails⟩ := inner.failed good failed (laws.ok step) trivial
      rw [same]
      exact ⟨goesOn.bind, laws.late step fails⟩
    · obtain ⟨acyclic, known⟩ := (behind value).1.failed two
      rw [same, bind_ok (inner.ok good one (laws.ok step) trivial).1, two]
      exact ⟨.same acyclic, laws.faults acyclic known⟩

theorem inScope {body body' : Compile Fragment}
    (inner : Yields onCycle pass names [] body body' (.code exits)) :
    Yields onCycle pass names facts (Compile.inScope true body) (Compile.inScope true body')
      (.code exits) := by
  refine nested true _ inner fun {s w} ok =>
    ⟨_, w, _, laws.refl (laws.enter true ok), fun _ => rfl, fun code =>
    ⟨Blames.modifyGet.bind fun _ => .pure, fun step here run => ?_⟩⟩
  cases run
  exact ⟨_, laws.leave ok step, laws.block step here⟩

end Yields

/-! ## Variables -/

theorem yields_define (name : String) :
    Yields onCycle pass [] facts (define name) (define name) (.knows ∘ some) := by
  refine Blames.modifyGet.yields ⟨fun {s id t w} run ok _ => ?_⟩
  obtain ⟨w', step, knows⟩ := laws.define run ok
  exact ⟨w', step, fun other same => Option.some.inj same ▸ knows⟩

theorem yields_defineHidden (name : String) :
    Yields onCycle pass [] facts (defineHidden name) (defineHidden name) (.knows ∘ some) := by
  refine Blames.modifyGet.yields ⟨fun {s id t w} run ok _ => ?_⟩
  obtain ⟨w', step, knows⟩ := laws.defineHidden run ok
  exact ⟨w', step, fun other same => Option.some.inj same ▸ knows⟩

theorem yields_resolve (name : String) :
    Yields onCycle pass [] facts (resolve name) (resolve name) fun found =>
      .knows (found.map Prod.fst) := by
  refine Blames.modifyGet.yields ⟨fun {s found t w} run ok _ => ?_⟩
  obtain ⟨step, knows⟩ := laws.resolve run ok
  refine ⟨w, step, fun id member => ?_⟩
  obtain ⟨⟨other, depth⟩, rfl, rfl⟩ := Option.map_eq_some_iff.1 member
  exact knows _ _ rfl

section
variable (exits) (knows : ∀ {s w}, pass.Knows s w facts → pass.knows s w id)
include knows

theorem gives_load : pass.Gives facts (load span id) (.code exits) := by
  refine ⟨fun {s code t w} run ok known => ?_⟩
  simp only [load, symbol, bind_eq_ok, get_eq_ok, pure_eq_ok] at run
  obtain ⟨_, _, ⟨_, _, ⟨rfl, rfl⟩, rfl, rfl⟩, _, _, checked, rfl, rfl⟩ := run
  obtain rfl := checkSlot_state checked
  refine ⟨w, laws.refl ok, laws.slot ok (knows known) ?_⟩
  cases storage : (s.table.symbol id).storage with
  | global => exact .global storage rfl rfl (fits_two rfl (checkSlot_global checked storage))
  | _ => exact .one (by simp [storage]) rfl rfl rfl

/-- A new variable takes the value on top of the stack. -/
theorem gives_storeNew : pass.Gives facts (storeNew span id) (.code exits) := by
  refine ⟨fun {s code t w} run ok known => ?_⟩
  simp only [storeNew, symbol, bind_eq_ok, get_eq_ok, pure_eq_ok] at run
  obtain ⟨_, _, ⟨_, _, ⟨rfl, rfl⟩, rfl, rfl⟩, _, _, checked, run⟩ := run
  obtain rfl := checkSlot_state checked
  by_cases isGlobal : (s.table.symbol id).storage = .global
  · rw [if_pos isGlobal] at run
    obtain ⟨rfl, rfl⟩ := pure_eq_ok.mp run
    exact ⟨w, laws.refl ok, laws.slot ok (knows known)
      (.global isGlobal rfl rfl (fits_two rfl (checkSlot_global checked isGlobal)))⟩
  · rw [if_neg isGlobal] at run
    simp only [bind_eq_ok, pure_eq_ok] at run
    obtain ⟨_, _, marked, rfl, rfl⟩ := run
    have step := laws.markAssigned marked ok
    exact ⟨w, step, laws.later step (laws.slot ok (knows known) (.one isGlobal rfl rfl rfl))⟩

/-- An assignment takes the value and the selectors above it. -/
theorem gives_store {target : Expr} {op : AssignOp} {count : Nat} (short : count ≤ 0xFF) :
    pass.Gives facts (store span target op id count) (.code exits) := by
  refine ⟨fun {s code t w} run ok known => ?_⟩
  have knows := knows known
  simp only [store, symbol, bind_eq_ok, get_eq_ok, pure_eq_ok] at run
  obtain ⟨_, _, ⟨_, _, ⟨rfl, rfl⟩, rfl, rfl⟩, _, _, checked, run⟩ := run
  obtain rfl := checkSlot_state checked
  cases storage : (s.table.symbol id).storage with
  | global =>
    have small := checkSlot_global checked storage
    rw [storage] at run
    dsimp only at run
    split at run
    · obtain ⟨rfl, rfl⟩ := pure_eq_ok.mp run
      exact ⟨w, laws.refl ok, laws.slot ok knows
        (.global storage rfl rfl (fits_pair rfl (Nat.lt_succ_of_le small) short))⟩
    · obtain ⟨rfl, rfl⟩ := pure_eq_ok.mp run
      exact ⟨w, laws.refl ok, laws.slot ok knows (.global storage rfl rfl (fits_two rfl small))⟩
  | local_ =>
    have inner : (s.table.symbol id).storage ≠ .global := by simp [storage]
    rw [storage] at run
    simp only [bind_eq_ok] at run
    obtain ⟨_, u, marked, run⟩ := run
    have step := laws.markAssigned marked ok
    split at run
    · obtain ⟨rfl, rfl⟩ := pure_eq_ok.mp run
      exact ⟨w, step, laws.later step (laws.slot ok knows (.pair inner rfl rfl rfl short))⟩
    · split at run <;>
      · obtain ⟨rfl, rfl⟩ := pure_eq_ok.mp run
        exact ⟨w, step, laws.later step (laws.slot ok knows (.one inner rfl rfl rfl))⟩
  | free =>
    have inner : (s.table.symbol id).storage ≠ .global := by simp [storage]
    rw [storage] at run
    dsimp only at run
    split at run
    · obtain ⟨rfl, rfl⟩ := pure_eq_ok.mp run
      exact ⟨w, laws.refl ok, laws.slot ok knows (.pair inner rfl rfl rfl short)⟩
    · obtain ⟨rfl, rfl⟩ := pure_eq_ok.mp run
      exact ⟨w, laws.refl ok, laws.slot ok knows (.one inner rfl rfl rfl)⟩
  | builtin =>
    rw [storage] at run
    exact (fail_ne_ok.mp run).elim

end

/-! ## Functions -/

/-- The cell of a captured variable is pushed, and made before if there is none yet. -/
theorem code_captureCell (exits : Prop) (run : captureCell span id s = .ok code t)
    (ok : pass.ok s w)
    (knows : pass.knows s w id) : pass.step [] s w t w ∧ pass.code exits t w code := by
  simp only [captureCell, symbol, bind_eq_ok, get_eq_ok, pure_eq_ok] at run
  obtain ⟨_, _, ⟨_, _, ⟨rfl, rfl⟩, rfl, rfl⟩, run⟩ := run
  cases storage : (s.table.symbol id).storage with
  | local_ =>
    have inner : (s.table.symbol id).storage ≠ .global := by simp [storage]
    rw [storage] at run
    simp only [bind_eq_ok, pure_eq_ok] at run
    obtain ⟨_, u, marked, rfl, rfl⟩ := run
    have step := laws.markAssigned marked ok
    refine ⟨step, laws.later step (laws.append ?_ (laws.slot ok knows (.one inner rfl rfl rfl)))⟩
    split
    · exact laws.empty
    · exact laws.append (laws.instr rfl rfl rfl) (laws.slot ok knows (.one inner rfl rfl rfl))
  | free =>
    rw [storage] at run
    obtain ⟨rfl, rfl⟩ := pure_eq_ok.mp run
    exact ⟨laws.refl ok, laws.slot ok knows (.one (by simp [storage]) rfl rfl rfl)⟩
  | _ =>
    rw [storage] at run
    obtain ⟨rfl, rfl⟩ := pure_eq_ok.mp run
    exact ⟨laws.refl ok, laws.empty⟩

theorem code_captureCells (exits : Prop) (ids : List Nat)
    (run : captureCells span ids s = .ok code t) (ok : pass.ok s w)
    (knows : ∀ id ∈ ids, pass.knows s w id) : pass.step [] s w t w ∧ pass.code exits t w code := by
  induction ids generalizing s code with
  | nil =>
    obtain ⟨rfl, rfl⟩ := pure_eq_ok.mp run
    exact ⟨laws.refl ok, laws.empty⟩
  | cons id ids ih =>
    simp only [captureCells, bind_eq_ok, pure_eq_ok] at run
    obtain ⟨cell, u, first, cells, _, rest, rfl, rfl⟩ := run
    obtain ⟨step, here⟩ := code_captureCell exits first ok (knows id (List.mem_cons_self ..))
    obtain ⟨step', there⟩ := ih rest (laws.ok step) fun other member =>
      laws.stays step (knows other (List.mem_cons_of_mem _ member))
    exact ⟨laws.trans step step', laws.append (laws.later step' here) there⟩

theorem step_defineParams (params : List Ident) (run : defineParams params s = .ok done t)
    (ok : pass.ok s w) : ∃ w', pass.step [] s w t w' := by
  induction params generalizing s w with
  | nil =>
    obtain ⟨-, rfl⟩ := pure_eq_ok.mp run
    exact ⟨w, laws.refl ok⟩
  | cons param params ih =>
    simp only [defineParams, bind_eq_ok] at run
    obtain ⟨id, u, defined, _, v, marked, rest⟩ := run
    obtain ⟨w', step, -⟩ := laws.define defined ok
    have both := laws.trans step (laws.markAssigned marked (laws.ok step))
    obtain ⟨w'', step'⟩ := ih rest (laws.ok both)
    exact ⟨w'', laws.trans both step'⟩

theorem defineParams_ok (params : List Ident) (s : CompileState) :
    ∃ t, defineParams params s = .ok () t := by
  cases run : defineParams params s with
  | ok _ t => exact ⟨t, rfl⟩
  | error error t =>
    have never : Blames (fun _ => False) (defineParams params) := blames_defineParams params
    exact (never.failed run).2.elim

theorem yields_function (known : pass.blame span) {params : List Ident} {variadic : Bool}
    {body body' : Compile Fragment}
    (inner : Yields onCycle pass names [] body body' (.code (false = true))) :
    Yields onCycle pass names facts (function span params variadic body)
      (function span params variadic body') (.code exits) := by
  by_cases few : params.length ≤ 0xFF
  · refine .nested false (function span params variadic) inner fun {s w} ok => ?_
    obtain ⟨u, defined⟩ := defineParams_ok params (s.enter false)
    obtain ⟨w₀, params'⟩ := step_defineParams params defined (laws.enter false ok)
    refine ⟨u, w₀, ?rest, params', fun body => ?same, fun body => ⟨?blames, ?behind⟩⟩
    case same =>
      have few : limit (decide (params.length ≤ 0xFF)) .tooManyLocals span s = .ok () s := by
        rw [decide_eq_true few]
        rfl
      unfold function inScope
      simp only [bind_assoc, pure_bind]
      rw [bind_ok few, bind_ok (rfl : (modify _ : Compile PUnit) s = .ok () (s.enter false)),
        bind_ok defined]
    case blames =>
      refine Blames.get.bind fun _ => Blames.modifyGet.bind fun _ =>
        (Blames.limit known rfl).bind fun _ =>
        (Blames.limit known rfl).bind fun _ => (blames_captureCells _).bind fun _ =>
          Blames.modifyGet.bind
        fun _ => (blames_addConstant known _).bind fun _ => ?_
      split <;> exact .pure
    case behind =>
      intro t w' code v whole here run
      simp only [bind_eq_ok, limit_eq_ok, get_eq_ok] at run
      obtain ⟨_, _, ⟨rfl, rfl⟩, _, _, left, _, _, ⟨locals, rfl⟩, _, _, ⟨captured, rfl⟩,
        cells, x, cell, value, y, made, index, z, added, run⟩ := run
      cases left
      have left := laws.leave ok whole
      obtain ⟨captures, cells'⟩ := code_captureCells exits _ cell (laws.ok left)
        fun id member => laws.captured ok whole member
      obtain ⟨w'', makes, pushes⟩ := laws.function few whole here (of_decide_eq_true locals)
        (of_decide_eq_true captured) captures made added
      obtain ⟨rfl, rfl⟩ :
          cells ++ pushFunction span index t.table.current.captured.size = code ∧ z = v := by
        unfold pushFunction
        by_cases none : t.table.current.captured.isEmpty = true
        · rw [if_pos none, pure_eq_ok] at run
          rwa [if_pos (by simpa using none)]
        · rw [if_neg none, pure_eq_ok] at run
          rwa [if_neg (by simpa using none)]
      have steps := laws.trans (laws.trans left captures) makes
      rw [append_nil, append_nil] at steps
      exact ⟨w'', steps, laws.append (laws.later makes cells') pushes⟩
  · have wide (body : Compile Fragment) :
        function span params variadic body = fail .tooManyLocals span := by
      unfold function
      rw [limit, if_neg (by simpa using few)]
      rfl
    rw [wide, wide]
    exact .fail known rfl

/-! ## Instructions -/

theorem number_instr (op : Operator) : pass.code exits s w (.instr span .binary [op.number]) :=
  laws.instr rfl rfl (fits_one rfl (by cases op <;> decide))

theorem code_binary {op : BinaryOp} (first : pass.code exits s w left)
    (second : pass.code exits s w right) : pass.code exits s w (binary span op left right) := by
  have operands := laws.append first second
  cases op with
  | both | either => exact laws.shortCircuit rfl first second
  | equal | notEqual => exact laws.append operands (laws.instr rfl rfl rfl)
  | strict op => exact laws.append operands (number_instr op)

end

theorem fits_call {positional : List Expr} {spread : Bool} {named : List NamedArg}
    {namedSpread : Option Expr} (short : positional.length ≤ 0xFF) :
    Opcode.call.fits [positional.length, callFlags spread named namedSpread] = true := by
  refine fits_pair rfl (Nat.lt_succ_of_le short) ?_
  rw [callFlags]
  cases spread <;> cases named.isEmpty <;> cases namedSpread.isSome <;> decide

end Compile

end Skiff
