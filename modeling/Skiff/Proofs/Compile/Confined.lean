import Skiff.Proofs.Code.Opcodes
import Skiff.Proofs.Compile.Modules
import Skiff.Proofs.Scope.Enclosed

/-!
# Modules keep to themselves

The text of a module is compiled in a table without global variables. So its code, and that of the
functions in it, loads and stores no global variables, and the functions that it makes or calls are
those of modules again. This holds of all modules that a program imports.
-/

namespace Skiff

open List Array Fragment SymbolTable CompileState Nat

/-- The code names no global variables, and as constants only those that it may refer to. -/
def CodeItem.Confined (refers : Nat → Prop) (item : CodeItem) : Prop :=
  item.Proper ∧ item.op.isGlobal = false ∧
    ∀ op operands, item = .instr op operands → op = .const ∨ op = .closure →
      refers (operands.getD 0 0)

variable {op : Opcode} {operands : List Nat} {index : Nat}

namespace Fragment

def Confined (refers : Nat → Prop) (code : Fragment) : Prop :=
  ∀ piece ∈ code, piece.item.Confined refers

section
variable {refers wider : Nat → Prop} {code left right test yes no body post : Fragment}
  {span : Span}

theorem Confined.mono (confined : Confined refers code)
    (more : ∀ index, refers index → wider index) : Confined wider code := by
  intro piece member
  obtain ⟨proper, local_, constants⟩ := confined piece member
  exact ⟨proper, local_, fun op operands same named => more _ (constants op operands same named)⟩

theorem confined_empty : Confined refers #[] := fun _ member => absurd member (not_mem_empty _)

theorem confined_append : Confined refers (left ++ right) ↔ Confined refers left ∧
    Confined refers right := by
  simp only [Confined, Array.mem_append, or_imp, forall_and]

theorem confined_instr (proper : operands.length = op.widths.length) (local_ : op.isGlobal = false)
    (constants : op = .const ∨ op = .closure → refers (operands.getD 0 0)) :
    Confined refers (instr span op operands) := by
  intro piece member
  obtain rfl := mem_singleton.1 member
  refine ⟨proper, local_, fun op operands same named => ?_⟩
  cases same
  exact constants named

theorem confined_plain (proper : operands.length = op.widths.length) (plain : op.isPlain = true) :
    Confined refers (instr span op operands) := by
  simp only [Opcode.isPlain, Bool.and_eq_true, Bool.not_eq_true', bne_iff_ne] at plain
  exact confined_instr proper plain.1.1 fun named => (named.elim plain.1.2 plain.2).elim

theorem isGlobal_of_isJump (jumps : op.isJump = true) : op.isGlobal = false := by
  cases op <;> first | rfl | exact absurd jumps Bool.false_ne_true

theorem confined_jump {distance : Int} (jumps : op.isJump = true) :
    Confined refers (jump span op distance) := by
  intro piece member
  obtain rfl := mem_singleton.1 member
  exact ⟨jumps, isGlobal_of_isJump jumps, fun _ _ same => CodeItem.noConfusion same⟩

theorem confined_exit {kind : LoopExit} : Confined refers (exit span kind) := by
  intro piece member
  obtain rfl := mem_singleton.1 member
  exact ⟨trivial, rfl, fun _ _ same => CodeItem.noConfusion same⟩

theorem confined_choice (tests : Confined refers test) (yeses : Confined refers yes)
    (noes : Confined refers no) : Confined refers (choice span test yes no) := by
  simp only [choice, confined_append]
  exact ⟨⟨⟨⟨tests, confined_jump rfl⟩, yeses⟩, confined_jump rfl⟩, noes⟩

theorem confined_guarded (tests : Confined refers test) (yeses : Confined refers yes) :
    Confined refers (guarded span test yes) := by
  simp only [guarded, confined_append]
  exact ⟨⟨tests, confined_jump rfl⟩, yeses⟩

theorem confined_shortCircuit (jumps : op.isJump = true) (lefts : Confined refers left)
    (rights : Confined refers right) : Confined refers (shortCircuit span op left right) := by
  simp only [shortCircuit, confined_append]
  exact ⟨⟨lefts, confined_jump jumps⟩, rights⟩

theorem confined_closeExits {leave next : Nat} (confined : Confined refers body) :
    Confined refers (body.closeExits leave next) := by
  intro piece member
  rw [← mem_toList_iff, toList_closeExits] at member
  have general (pieces : List CodePiece) (confined : ∀ piece ∈ pieces, piece.item.Confined refers)
      (place : Nat) : ∀ piece ∈ closeFrom leave next place pieces, piece.item.Confined refers := by
    induction pieces generalizing place with
    | nil => exact fun _ member => absurd member not_mem_nil
    | cons first pieces ih =>
      rw [forall_mem_cons] at confined
      refine forall_mem_cons.2 ⟨?_, ih confined.2 _⟩
      have jump (distance : Int) : (CodeItem.jump .jump distance).Confined refers :=
        ⟨rfl, rfl, fun _ _ same => CodeItem.noConfusion same⟩
      obtain ⟨item, span⟩ := first
      cases item with
      | instr op operands | jump op distance => exact confined.1
      | exit kind => cases kind <;> exact jump _
  exact general body.toList (fun piece member => confined piece (mem_toList_iff.1 member)) 0
    piece member

theorem confined_loop {test : Option Fragment} (tests : ∀ code ∈ test, Confined refers code)
    (bodies : Confined refers body) (posts : Confined refers post) :
    Confined refers (loop span test body post) := by
  simp only [loop, confined_append]
  refine ⟨⟨⟨?_, confined_closeExits bodies⟩, posts⟩, confined_jump rfl⟩
  cases test with
  | none => exact confined_empty
  | some test => exact confined_append.2 ⟨tests test rfl, confined_jump rfl⟩

end

end Fragment

namespace CompileState

/-- The number of a constant that is no function, or one of the functions inside of modules. -/
def Refers (state : CompileState) (inside : Nat → Prop) (index : Nat) : Prop :=
  ∃ value, state.constants[index]? = some value ∧ ∀ ref, value = .function ref → inside ref

/-- A body that names no global variables, and the function that has been made from it. -/
structure Holds (state : CompileState) (inside : Nat → Prop) (emission : Emission) : Prop where
  body : emission.body.Confined (state.Refers inside)
  made : ∃ function, state.heap.functions[emission.function]? = some function ∧
    ∃ map span, function.code = (tidy emission.body.assemble.1 map span).1

/-- The functions inside of modules, beside those of the program. -/
structure Separates (state : CompileState) (inside : Nat → Prop) : Prop where
  compiled {path : String} {value : Value} : (path, value) ∈ state.compiled →
    ∃ ref, value = .function ref ∧ inside ref
  native {name : String} {index : Nat} :
    (name, index) ∈ state.native → state.Refers (fun _ => False) index
  listed {ref : Nat} : inside ref → ∃ emission ∈ state.emitted, emission.function = ref
  below {emission : Emission} :
    emission ∈ state.emitted → emission.function < state.heap.functions.size
  holds {emission : Emission} : emission ∈ state.emitted → inside emission.function →
    state.Holds inside emission

/-- A later state, with more functions inside of modules. -/
structure Widens (s : CompileState) (inside : Nat → Prop) (t : CompileState)
    (inside' : Nat → Prop) : Prop where
  separates : t.Separates inside'
  inside {ref : Nat} : inside ref → inside' ref
  constants {index : Nat} {value : Value} : s.constants[index]? = some value →
    t.constants[index]? = some value

variable {s t u : CompileState} {inside inside' inside'' : Nat → Prop}

theorem Refers.mono (refers : s.Refers inside index)
    (constants : ∀ {index : Nat} {value : Value}, s.constants[index]? = some value →
    t.constants[index]? = some value)
    (more : ∀ {ref : Nat}, inside ref → inside' ref) : t.Refers inside' index := by
  obtain ⟨value, here, function⟩ := refers
  exact ⟨value, constants here, fun ref same => more (function ref same)⟩

theorem Widens.refers (widens : Widens s inside t inside') (refers : s.Refers inside index) :
    t.Refers inside' index :=
  refers.mono widens.constants widens.inside

theorem Widens.trans (first : Widens s inside t inside') (second : Widens t inside' u inside'') :
    Widens s inside u inside'' :=
  ⟨second.separates, second.inside ∘ first.inside, second.constants ∘ first.constants⟩

section
variable (separates : s.Separates inside)
include separates

theorem Separates.refl : Widens s inside s inside :=
  ⟨separates, id, id⟩

/-- Files, tables, maps and the list of imports do not matter. -/
theorem Separates.beside {files : FileSet} {table : SymbolTable} {imported : List (String × Nat)}
    {maps : Array (Dict Value)} :
    Widens s inside { s with files, table, imported, heap := { s.heap with maps } } inside := by
  refine ⟨{ separates with holds := fun member known => ?_ }, id, id⟩
  obtain ⟨body, made⟩ := separates.holds member known
  exact ⟨body, made⟩

/-- A constant more. -/
theorem Separates.push (value : Value) :
    Widens s inside { s with constants := s.constants.push value } inside := by
  have kept {index : Nat} {other : Value} (here : s.constants[index]? = some other) :
      (s.constants.push value)[index]? = some other := by
    exact getElem?_push_of_found here
  refine ⟨{ separates with
    native := fun member => ?_
    holds := fun member known => ?_ }, id, kept⟩
  · exact (separates.native member).mono kept id
  · obtain ⟨body, made⟩ := separates.holds member known
    exact ⟨body.mono fun _ refers => refers.mono kept id, made⟩

/-- A function more, inside of a module or not. -/
theorem Separates.newFunction (inModule : Bool) (captured : Nat) {body : Fragment}
    (function : Function) (confined : inModule = true → body.Confined (s.Refers inside))
    (code : inModule = true → ∃ map span, function.code = (tidy body.assemble.1 map span).1) :
    Widens s inside
      { s with
        heap := (s.heap.newFunction function).2
        emitted := { function := s.heap.functions.size, captured, body } :: s.emitted }
      fun ref => inside ref ∨ inModule = true ∧ ref = s.heap.functions.size := by
  have more {ref : Nat} (known : inside ref) :
      inside ref ∨ inModule = true ∧ ref = s.heap.functions.size :=
    .inl known
  refine ⟨⟨fun member => ?_, separates.native, fun known => ?_, fun member => ?_,
    fun {emission} member known => ?_⟩, more, id⟩
  · obtain ⟨ref, same, known⟩ := separates.compiled member
    exact ⟨ref, same, more known⟩
  · rcases known with old | ⟨-, rfl⟩
    · obtain ⟨emission, member, same⟩ := separates.listed old
      exact ⟨emission, mem_cons_of_mem _ member, same⟩
    · exact ⟨_, mem_cons_self .., rfl⟩
  · change _ < (s.heap.functions.push function).size
    rw [size_push]
    rcases mem_cons.1 member with rfl | old
    · exact lt_succ_self _
    · exact lt_succ_of_lt (separates.below old)
  · rcases mem_cons.1 member with rfl | old
    · have isModule : inModule = true := by
        rcases known with old | new
        · obtain ⟨emission, member, same⟩ := separates.listed old
          exact absurd (separates.below member) (same ▸ lt_irrefl _)
        · exact new.1
      exact ⟨(confined isModule).mono fun _ refers => refers.mono id more,
        function, getElem?_push_size, code isModule⟩
    · have below := separates.below old
      have known : inside emission.function := known.resolve_right fun new =>
          Nat.ne_of_lt below new.2
      obtain ⟨body, made, here, code⟩ := separates.holds old known
      exact ⟨body.mono fun _ refers => refers.mono id more, made, getElem?_push_of_found here, code⟩

end

end CompileState

namespace Compile

variable {inModule : Bool} {s t u : CompileState} {code code' : Fragment} {span : Span} {id : Nat}

/-- The symbol has been made, if the table is that of a module. -/
def MadeIn (inModule : Bool) (state : CompileState) (id : Nat) : Prop :=
  inModule = true → id < state.table.symbols.size

/-- In a module, code names no global variables; which functions are inside of modules may be
known. -/
def confining (inModule : Bool) (known : Prop) : Pass where
  World := Nat → Prop
  ok s inside := (inModule = true → s.table.Enclosed) ∧ (known → s.Separates inside)
  step _ s inside t inside' :=
    (inModule = true → Encloses s.table t.table) ∧ (known → Widens s inside t inside')
  knows s _ := MadeIn inModule s
  code _ t inside code := inModule = true → known → code.Confined (t.Refers inside)
  data value := ∀ ref, value ≠ .function ref

section
variable {known exits : Prop} {inside : Nat → Prop} {value : Value}
  (ok : (confining inModule known).ok s inside)
include ok

theorem confining_table (change : TableChange) (grows : Grows s.table (s.table.change change)) :
    (confining inModule known).step [] s inside { s with table := s.table.change change } inside :=
  ⟨fun isModule => (ok.1 isModule).grow grows (sound_change (ok.1 isModule).sound change).1,
    fun here => (ok.2 here).beside⟩

theorem confining_constant (run : constant span value s = .ok code t)
    (plain : ∀ ref, value ≠ .function ref) :
    (confining inModule known).step [] s inside t inside ∧
      (confining inModule known).code exits t inside code := by
  simp only [constant, bind_eq_ok, pure_eq_ok] at run
  obtain ⟨index, _, added, rfl, rfl⟩ := run
  obtain ⟨rfl, rfl⟩ := addConstant_eq added
  refine ⟨⟨fun isModule => (ok.1 isModule).refl, fun here => (ok.2 here).push value⟩, fun _ _ => ?_⟩
  exact confined_instr rfl rfl fun _ =>
    ⟨value, getElem?_push_size, fun ref same => absurd same (plain ref)⟩

end

instance (inModule : Bool) (known : Prop) : (confining inModule known).Laws where
  ok step := ⟨fun isModule => (step.1 isModule).enclosed, fun here => (step.2 here).separates⟩
  refl ok := ⟨fun isModule => (ok.1 isModule).refl, fun here => (ok.2 here).refl⟩
  trans first second := ⟨fun isModule => (first.1 isModule).trans (second.1 isModule),
    fun here => (first.2 here).trans (second.2 here)⟩
  later step confined isModule here := (confined isModule here).mono fun _ => (step.2 here).refers
  stays step made isModule := lt_of_lt_of_le (made isModule) (step.1 isModule).grows.size
  empty _ _ := confined_empty
  append first second isModule here := confined_append.2 ⟨first isModule here, second isModule here⟩
  instr plain _ fits _ _ := confined_plain ((Opcode.fits_iff _ _).1 fits).length_eq.symm plain
  exit _ _ _ := confined_exit
  choice test yes no isModule here :=
    confined_choice (test isModule here) (yes isModule here) (no isModule here)
  guarded test yes isModule here := confined_guarded (test isModule here) (yes isModule here)
  shortCircuit jumps left right isModule here :=
    confined_shortCircuit jumps (left isModule here) (right isModule here)
  loop test body post isModule here :=
    confined_loop (fun code member => test code member isModule here) (body isModule here)
      (post isModule here)
  define {name s _ _ _} run ok := by
    cases run
    exact ⟨_, confining_table ok (.define name) (grows_define ..),
      fun _ => lt_of_lt_of_eq (lt_succ_self _) (size_push _).symm⟩
  defineHidden {name s _ _ _} run ok := by
    cases run
    exact ⟨_, confining_table ok (.defineHidden name) (grows_defineHidden ..),
      fun _ => lt_of_lt_of_eq (lt_succ_self _) (size_push _).symm⟩
  resolve run ok := by
    cases run
    exact ⟨⟨fun isModule => ((ok.1 isModule).resolve _).1, fun here => (ok.2 here).beside⟩,
      fun id depth found isModule => ((ok.1 isModule).resolve _).2 id depth found⟩
  markAssigned run ok := by
    cases run
    exact confining_table ok (.markAssigned _) (grows_markAssigned ..)
  slot ok made slotted isModule _ :=
    confined_plain slotted.proper (slotted.plain ((ok.1 isModule).symbol (made isModule)))
  constant _ run plain ok := confining_constant ok run plain
  enter {s _} block ok := by
    refine ⟨fun isModule => (ok.1 isModule).enter block, fun here => ?_⟩
    have entered : Widens s _ (s.enter block) _ := (ok.2 here).beside
    exact entered.separates
  leave {_ s t _ _ block} ok inner := by
    refine ⟨fun isModule => (inner.1 isModule).leave (ok.1 isModule), fun here => ?_⟩
    have entered : Widens s _ (s.enter block) _ := (ok.2 here).beside
    have left : Widens t _ t.leave _ := (inner.2 here).separates.beside
    exact (entered.trans (inner.2 here)).trans left
  block _ confined := confined
  captured {_ _ t _ _ _} _ whole member isModule := by
    change _ < t.table.leave.symbols.size
    rw [symbols_leave]
    exact (whole.1 isModule).enclosed.captured member
  function {_ _ _ u v _ _ _ span params variadic code _ _ _} _ _ body _ _ captures made added := by
    cases made
    obtain ⟨rfl, rfl⟩ := addConstant_eq added
    have makes (here : known) := (captures.2 here).separates.newFunction inModule
      u.table.current.captured.size (functionOf span params variadic code u.table.current)
      (fun isModule => (body isModule here).mono fun _ => (captures.2 here).refers)
        fun _ => ⟨_, _, rfl⟩
    have adds (here : known) := (makes here).separates.push (.function v.heap.functions.size)
    refine ⟨_, ⟨fun isModule => (captures.1 isModule).enclosed.refl, fun here =>
      (makes here).trans (adds here)⟩, fun isModule _ => ?_⟩
    rw [pushFunction]
    split <;>
    · exact confined_instr rfl rfl fun _ => ⟨_, getElem?_push_size, fun ref same =>
        .inr ⟨isModule, (Value.function.inj same).symm⟩⟩
  number _ _ := Value.noConfusion
  double _ _ := Value.noConfusion
  character _ _ := Value.noConfusion
  text _ _ := Value.noConfusion
  keys _ _ _ _ _ _ := Value.noConfusion
  field _ _ := Value.noConfusion
  names _ _ _ _ _ := Value.noConfusion
  namedMap _ keys isModule here := by
    rw [namedMap]
    split
    · exact confined_empty
    · exact confined_append.2 ⟨keys isModule here, confined_plain rfl rfl⟩

/-! ## Modules -/

variable {value : Value}

theorem confining_nativeModule {known : Prop} {inside : Nat → Prop} {name : String}
    {entries : Dict Value} (ok : (confining inModule known).ok s inside)
    (run : nativeModule span name entries s = .ok code t) :
    (confining inModule known).step [name] s inside t inside ∧
      (inModule = true → known → code.Confined (t.Refers inside)) := by
  obtain ⟨index, u, supplies, rfl, rfl⟩ := nativeModule_eq run
  cases supplies with
  | again known =>
    refine ⟨⟨fun isModule => (ok.1 isModule).refl, fun here => (ok.2 here).beside⟩,
      fun _ here => confined_instr rfl rfl fun _ => ?_⟩
    exact ((ok.2 here).native (mem_of_lookup known)).mono id False.elim
  | first _ added =>
    obtain ⟨rfl, rfl⟩ := addConstant_eq added
    refine ⟨⟨fun isModule => (ok.1 isModule).refl, fun here => ?_⟩, fun _ _ =>
      confined_instr rfl rfl fun _ =>
      ⟨_, getElem?_push_size, fun _ => Value.noConfusion⟩⟩
    have makes : Widens s inside { s with heap := (s.heap.newMap entries).2 } inside :=
      (ok.2 here).beside
    obtain ⟨⟨compiled, native, listed, below, holds⟩, more, constants⟩ :=
      makes.trans (makes.separates.push (.immutableMap s.heap.maps.size))
    refine ⟨⟨compiled, fun member => ?_, listed, below, fun member inner => ?_⟩, more, constants⟩
    · rcases mem_cons.1 member with same | old
      · cases same
        exact ⟨_, getElem?_push_size, fun _ => Value.noConfusion⟩
      · exact native old
    · exact ⟨(holds member inner).body, (holds member inner).made⟩

/-- The function of a module is one inside of modules, and the table of its importer is the current
one again when it has been compiled. -/
theorem confining_modular (inModule : Bool) (known : Prop) (modules : ModuleMap) :
    (confining inModule known).Modular (confining true known) modules fun _ inside value =>
      known → ∃ ref, value = .function ref ∧ inside ref where
  any := id
  reads _ ok := ⟨fun isModule => (ok.1 isModule).refl, fun here => (ok.2 here).beside⟩
  makes {s inside} ok := by
    have entered (here : known) : Widens s inside { s with table := moduleTable s.table } inside :=
      (ok.2 here).beside
    refine ⟨inside, ⟨fun _ => enclosed_builtins _, fun here => (entered here).separates⟩,
      fun {_ body v inside₁ span _ _} step confined _ made => ?_⟩
    cases made
    have left (here : known) : Widens v inside₁ { v with table := s.table } inside₁ :=
      (step.2 here).separates.beside
    have makes (here : known) := (left here).separates.newFunction true 0
      (functionOf span [] false body v.table.current)
      (fun _ => (confined rfl here).mono fun _ => (left here).refers) fun _ => ⟨_, _, rfl⟩
    exact ⟨_, ⟨fun isModule => (ok.1 isModule).refl, fun here =>
      (((entered here).trans (step.2 here)).trans (left here)).trans (makes here)⟩,
      fun _ => ⟨_, rfl, .inr ⟨rfl, rfl⟩⟩⟩
  known ok member here := (ok.2 here).compiled member
  keeps path ok made := by
    refine ⟨fun isModule => (ok.1 isModule).refl, fun here => ?_⟩
    obtain ⟨compiled, native, listed, below, holds⟩ := ok.2 here
    refine ⟨⟨fun member => ?_, native, listed, below, fun member inner => ?_⟩, id, id⟩
    · rcases mem_cons.1 member with same | old
      · cases same
        exact made here
      · exact compiled old
    · exact ⟨(holds member inner).body, (holds member inner).made⟩
  calls {_ _ _ value _ _} path exits ok made added := by
    obtain ⟨rfl, rfl⟩ := addConstant_eq added
    refine ⟨⟨fun isModule => (ok.1 isModule).refl, fun here => ?_⟩, fun isModule here => ?_⟩
    · have adds := (ok.2 here).push value
      exact adds.trans (adds.separates.beside)
    · refine confined_append.2 ⟨confined_instr rfl rfl fun _ =>
        ⟨_, getElem?_push_size, fun ref same => ?_⟩, confined_plain rfl rfl⟩
      obtain ⟨ref, rfl, inside⟩ := made here
      exact Value.function.inj same ▸ inside
  native _ _ run ok := ⟨_, confining_nativeModule ok run⟩

/-- Whatever may be imported. -/
theorem confining_imports (inModule : Bool) (known : Prop) (modules : ModuleMap) (fuel : Nat)
    (files : Option FileImports) (opened : List String) :
    (confining inModule known).GivesImports (importModule modules fuel files opened) := by
  have fulfils : (confining true known).Fulfils modules fun _ => True :=
    ⟨fun _ _ => ⟨trivial, fun _ _ _ => False.elim⟩⟩
  exact (confining_modular inModule known modules).import_step fulfils trivial
    fun less _ opened _ ok =>
    (confining_modular true known modules).import_all fulfils less ok opened

end Compile

/-! ## Functions inside of modules -/

/-- Functions that are named in the body of a function, in the bodies of these, and so on: the
function expressions in it at any depth, and the modules that it imports. -/
inductive CompileState.Nests (state : CompileState) : Nat → Nat → Prop where
  | self (ref : Nat) : Nests state ref ref
  | inner {ref next last : Nat} {emission : Emission} {piece : CodePiece} {op : Opcode}
      {index : Nat}
      {operands : List Nat} (listed : emission ∈ state.emitted) (made : emission.function = ref)
      (member : piece ∈ emission.body) (named : piece.item = .instr op (index :: operands))
      (constant : op = .const ∨ op = .closure)
        (here : state.constants[index]? = some (.function next))
      (rest : Nests state next last) : Nests state ref last

theorem CompileState.Separates.nests {state : CompileState} {inside : Nat → Prop}
    (separates : state.Separates inside) {ref inner : Nat} (nests : state.Nests ref inner)
    (known : inside ref) : inside inner := by
  induction nests with
  | self => exact known
  | inner listed made member named constant here _ ih =>
    obtain ⟨-, -, refers⟩ := (separates.holds listed (made ▸ known)).body _ member
    obtain ⟨value, there, function⟩ := refers _ _ named constant
    exact ih (function _ (Option.some.inj (there.symm.trans here)))

theorem CompileState.Separates.noGlobals {state : CompileState} {inside : Nat → Prop}
    (separates : state.Separates inside) {ref : Nat} (known : inside ref) :
    ∃ function, state.heap.functions[ref]? = some function ∧
      ∀ instr ∈ (decode function.code).toList, instr.op.isGlobal = false := by
  obtain ⟨emission, listed, rfl⟩ := separates.listed known
  obtain ⟨body, function, made, map, span, code⟩ := separates.holds listed known
  refine ⟨function, made, fun instr member => ?_⟩
  rw [code] at member
  rcases op_of_mem_body (fun piece member => (body piece member).1) map span member with
    returns | ⟨piece, member, same⟩
  · rw [returns]
    rfl
  · rw [← same]
    exact (body piece member).2.1

/-- No modules have been imported yet. -/
structure CompileState.WithoutModules (state : CompileState) : Prop where
  compiled : state.compiled = []
  native : state.native = []
  below : ∀ emission ∈ state.emitted, emission.function < state.heap.functions.size

namespace Compile

/-- Modules cannot touch the variables of the program. In the code of every module that a program
imports, and of all functions nested in it, no instruction loads or stores a global variable. And
every symbol in the table of a module, whatever scope it was made in, is local, free or a
builtin. -/
theorem modules_apart {imports : Imports} {script : Script} {program : Program} {s t : CompileState}
    (fresh : s.WithoutModules) (run : Compile.program imports script s = .ok program t) :
    (∀ path value, (path, value) ∈ t.compiled → ∃ ref, value = .function ref ∧
      ∀ inner, t.Nests ref inner → ∃ function, t.heap.functions[inner]? = some function ∧
        ∀ instr ∈ (decode function.code).toList, instr.op.isGlobal = false) ∧
    ∀ fuel files open_ (module : Script) (importer : CompileState) body v,
      stmts { inModule := true, importModule := importModule imports.modules fuel files open_ }
        module.stmts #[] { importer with table := moduleTable importer.table } = .ok body v →
      NoGlobals v.table.symbols := by
  constructor
  · have none : s.Separates fun _ => False :=
      ⟨fun member => absurd (fresh.compiled ▸ member) not_mem_nil,
        fun member => absurd (fresh.native ▸ member) not_mem_nil, False.elim, fresh.below _,
        fun _ => False.elim⟩
    obtain ⟨body, u, compiled, -, rfl⟩ := program_eq run
    have ok : (confining false True).ok s fun _ => False :=
      ⟨fun isModule => absurd isModule Bool.false_ne_true, fun _ => none⟩
    obtain ⟨inside, step, -⟩ := Pass.code_stmts (confining_imports ..) False.elim compiled ok
    have makes := (step.2 trivial).separates.newFunction false 0
      { code := (Opcode.suspend.encode []).foldl ByteArray.push body.assemble.1,
        map := body.assemble.2 }
      (fun isModule : false = true => absurd isModule Bool.false_ne_true : _ → body.Confined _)
      fun isModule => absurd isModule Bool.false_ne_true
    intro path value member
    obtain ⟨ref, same, known⟩ := makes.separates.compiled member
    exact ⟨ref, same, fun inner nests =>
      makes.separates.noGlobals (makes.separates.nests nests known)⟩
  · intro fuel files open_ module importer body v run
    have ok : (confining true False).ok { importer with table := moduleTable importer.table }
        fun _ => False :=
      ⟨fun _ => enclosed_builtins _, False.elim⟩
    obtain ⟨_, step, -⟩ := Pass.code_stmts (confining_imports ..) False.elim run ok
    exact (step.1 rfl).enclosed.plain

/-- A module that imports another one inside of a function, and that one with a function in a
function. -/
def nestedModules : ModuleMap :=
  .ofList [("outer", .source "if true \x7b export func() \x7b return import(\"inner\") \x7d \x7d"),
    ("inner", .source "export func(x) \x7b return func() \x7b return 1 \x7d \x7d")]

/-- A program that imports a module. -/
def importing (name : String) : Script :=
  { stmts := [.expr {} (.importModule {} name)], span := {} }

/-- The modules that a program has imported, if it has been compiled. -/
def pathsOf : EStateM.Result CompileError CompileState Program → List String
  | .ok _ t => t.compiled.map Prod.fst
  | .error _ _ => []

theorem modules_apart_nestedModules :
    ∃ program t, Compile.program { modules := nestedModules } (importing "outer")
        { table := .withBuiltins } = .ok program t ∧ t.compiled.map Prod.fst = ["outer", "inner"] ∧
      ∀ path value, (path, value) ∈ t.compiled → ∃ ref, value = .function ref ∧
        ∀ inner, t.Nests ref inner → ∃ function, t.heap.functions[inner]? = some function ∧
          ∀ instr ∈ (decode function.code).toList, instr.op.isGlobal = false := by
  have paths : pathsOf (Compile.program { modules := nestedModules } (importing "outer")
      { table := .withBuiltins }) = ["outer", "inner"] := by
    decide +kernel
  have fresh : WithoutModules { table := .withBuiltins } :=
    ⟨rfl, rfl, fun _ member => absurd member not_mem_nil⟩
  cases run :
    Compile.program { modules := nestedModules } (importing "outer") { table := .withBuiltins } with
  | error error t =>
    rw [run] at paths
    exact absurd paths (cons_ne_nil _ _).symm
  | ok program t =>
    rw [run] at paths
    exact ⟨program, t, rfl, paths, (modules_apart fresh run).1⟩

end Compile

end Skiff
