import Skiff.Compile.Program
import Skiff.Proofs.Stateful

/-!
# Single steps of compilations

When the steps of a compilation succeed and what they leave behind, down to the import of a module.
-/

namespace Skiff

open Array Fragment

namespace CompileState

/-- The state in a new scope. -/
def enter (state : CompileState) (block : Bool) : CompileState :=
  { state with table := state.table.enter block }

/-- The state behind the current scope. -/
def leave (state : CompileState) : CompileState := { state with table := state.table.leave }

end CompileState

namespace Compile

variable {span : Span} {s t : CompileState} {code : Fragment} {done : Unit}

section
variable {β : Type} {before after : CompileState} {result : β} {fault : CompileFault}


theorem fail_ne_ok : ((fail fault span : Compile β) before = .ok result after) = False :=
  eq_false nofun

theorem limit_eq_ok {holds : Bool} :
    (limit holds fault span before = .ok done after) = (holds = true ∧ before = after) := by
  unfold limit
  cases holds with
  | true => simp [pure_eq_ok]
  | false => simp [fail_ne_ok]

end

theorem addConstant_eq {value : Value} {index : Nat}
    (run : addConstant span value s = .ok index t) :
    index = s.constants.size ∧ t = { s with constants := s.constants.push value } := by
  simp only [addConstant, bind_eq_ok, get_eq_ok, limit_eq_ok, pure_eq_ok] at run
  obtain ⟨_, _, ⟨rfl, rfl⟩, _, _, ⟨-, rfl⟩, _, _, pushed, rfl, rfl⟩ := run
  exact ⟨rfl, (EStateM.Result.ok.injEq .. ▸ pushed).2.symm⟩

/-- Whether an expression is a function. -/
def isFunction : Expr → Bool
  | .func .. => true
  | _ => false

/-- The flags of a call. -/
def callFlags (spread : Bool) (named : List NamedArg) (namedSpread : Option Expr) : Nat :=
  (if spread then spreadFlag else 0) + (if named.isEmpty then 0 else namedFlag)
    + (if namedSpread.isSome then namedSpreadFlag else 0)

/-- The map of the named arguments of a call. -/
def namedMap (span : Span) (named : List NamedArg) (code : Fragment) : Fragment :=
  if named.isEmpty then #[] else code ++ instr span .map [named.length * 2]

/-- The code that pushes a function with captured variables. -/
def pushFunction (span : Span) (index captured : Nat) : Fragment :=
  if captured = 0 then .instr span .const [index] else .instr span .closure [index, captured]

/-- The function object of a function expression whose body has been compiled. -/
def functionOf (span : Span) (params : List Ident) (variadic : Bool) (body : Fragment)
    (scope : Scope) : Function :=
  let (code, map) := tidy body.assemble.1 body.assemble.2 span
  { code, locals := scope.most, params := params.length, variadic, map }

theorem checkSlot_state {symbol : Symbol} (run : checkSlot span symbol s = .ok done t) : s = t := by
  unfold checkSlot at run
  cases storage : symbol.storage with
  | builtin =>
    rw [storage] at run
    exact (pure_eq_ok.mp run).2
  | _ =>
    rw [storage] at run
    exact (limit_eq_ok.mp run).2

theorem stmt_assign (context : CompileContext) (span : Span) (op : AssignOp) (target value : Expr) :
    stmt context (.assign span op target value) =
      assign span target op (isFunction value) (expr context target) (expr context value)
        (selectors context target) := by
  cases value <;> simp only [stmt, isFunction]

/-! ## Imports -/

/-- The function of a module and the state behind it: the module has been compiled before, or `body`
compiles it now. -/
inductive Supplies (path : String) (body : Compile Value) (s : CompileState) :
    Value → CompileState → Prop where
  | again {function : Value} (known : s.compiled.lookup path = some function) :
      Supplies path body s function s
  | first {function : Value} {t : CompileState} (unknown : s.compiled.lookup path = none)
      (run : body s = .ok function t) :
      Supplies path body s function { t with compiled := (path, function) :: t.compiled }

theorem callModule_eq {open_ : List String} {path : String} {body : Compile Value}
    (run : callModule open_ span path body s = .ok code t) :
    open_.contains path = false ∧ ∃ function u index v, Supplies path body s function u ∧
      addConstant span function u = .ok index v ∧
      code = instr span .const [index] ++ instr span .call [0, 0] ∧
      t = { v with imported := (path, index) :: v.imported } := by
  simp only [callModule, bind_eq_ok, limit_eq_ok, get_eq_ok] at run
  obtain ⟨_, _, ⟨fresh, rfl⟩, _, _, ⟨rfl, rfl⟩, run⟩ := run
  refine ⟨by simpa using fresh, ?_⟩
  cases known : s.compiled.lookup path with
  | some function =>
    rw [known] at run
    simp only [bind_eq_ok, pure_eq_ok] at run
    obtain ⟨_, _, ⟨rfl, rfl⟩, index, v, added, _, _, noted, rfl, rfl⟩ := run
    cases noted
    exact ⟨function, s, index, v, .again known, added, rfl, rfl⟩
  | none =>
    rw [known] at run
    simp only [bind_eq_ok, pure_eq_ok] at run
    obtain ⟨function, u, compiled, _, _, listed, _, _, ⟨rfl, rfl⟩, index, v, added, _, _, noted,
        rfl, rfl⟩ :=
      run
    cases listed
    cases noted
    exact ⟨function, _, index, v, .first known compiled, added, rfl, rfl⟩

/-- The constant of a native module and the state behind it: it has been made before, or is made
now. -/
inductive SuppliesMap (span : Span) (name : String) (entries : Dict Value) (s : CompileState) :
    Nat → CompileState → Prop where
  | again {index : Nat} (known : s.native.lookup name = some index) :
      SuppliesMap span name entries s index s
  | first {index : Nat} {t : CompileState} (unknown : s.native.lookup name = none)
      (added : addConstant span (.immutableMap s.heap.maps.size)
        { s with heap := (s.heap.newMap entries).2 } = .ok index t) :
      SuppliesMap span name entries s index { t with native := (name, index) :: t.native }

theorem nativeModule_eq {name : String} {entries : Dict Value}
    (run : nativeModule span name entries s = .ok code t) :
    ∃ index u, SuppliesMap span name entries s index u ∧ code = .instr span .const [index] ∧
      t = { u with imported := (name, index) :: u.imported } := by
  simp only [nativeModule, bind_eq_ok, get_eq_ok] at run
  obtain ⟨_, _, ⟨rfl, rfl⟩, run⟩ := run
  cases known : s.native.lookup name with
  | some index =>
    rw [known] at run
    simp only [bind_eq_ok, pure_eq_ok] at run
    obtain ⟨_, _, ⟨rfl, rfl⟩, _, _, noted, rfl, rfl⟩ := run
    cases noted
    exact ⟨index, s, .again known, rfl, rfl⟩
  | none =>
    rw [known] at run
    simp only [bind_eq_ok, pure_eq_ok] at run
    obtain ⟨value, u, made, index, v, added, _, _, listed, _, _, ⟨rfl, rfl⟩, _, _, noted,
        rfl, rfl⟩ := run
    cases made
    cases listed
    cases noted
    exact ⟨index, _, .first known added, rfl, rfl⟩

theorem mem_of_lookup {α : Type} {entries : List (String × α)} {key : String} {value : α}
    (found : entries.lookup key = some value) : (key, value) ∈ entries := by
  obtain ⟨first, last, rfl, -⟩ := List.lookup_eq_some_iff.1 found
  exact List.mem_append_right _ (List.mem_cons_self ..)

end Compile

end Skiff
