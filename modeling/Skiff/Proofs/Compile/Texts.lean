import Skiff.Proofs.Compile.Modules
import Skiff.Proofs.Realm.Step

/-!
# Compilations inside of a realm

The constants of a program are literals, which are checked, names and functions. So all that a
compiled program holds may occur, if its names may occur as strings.
-/

namespace Skiff

open Array

/-- The names in an expression that become strings are short. -/
def Expr.NamesFit (bound : Nat) : Expr → Prop
  | .map _ entries => ∀ key span value, .mk key span value ∈ entries → key.utf8ByteSize ≤ bound
  | .select _ _ field => field.name.utf8ByteSize ≤ bound
  | .call _ _ (.mk _ _ named _) =>
    ∀ name value, .mk name value ∈ named → name.name.utf8ByteSize ≤ bound
  | _ => True

/-- A state of a compilation that holds what may occur. -/
structure CompileState.Inside (realm : Realm) (state : CompileState) : Prop where
  constants {value : Value} : value ∈ state.constants → value.Inside realm
  heap : state.heap.Inside realm
  compiled {entry : String × Value} : entry ∈ state.compiled → entry.2.Inside realm

variable {value : Value} {program : Program}

namespace CompileState.Inside

variable {realm : Realm} {s t : CompileState}

section
variable (inside : s.Inside realm)
include inside

theorem table (table : SymbolTable) : Inside realm { s with table } :=
  { inside with }

theorem enter (block : Bool) : (s.enter block).Inside realm := inside.table _

theorem leave : s.leave.Inside realm := inside.table _

theorem push (known : value.Inside realm) :
    Inside realm { s with constants := s.constants.push value } := by
  refine ⟨?_, inside.heap, inside.compiled⟩
  intro other member
  rcases mem_push.1 member with old | rfl
  · exact inside.constants old
  · exact known

end

end CompileState.Inside

variable {realm : Realm} {span : Span} {s t : CompileState} {code : Fragment}

namespace Compile

/-! ## Single steps -/

theorem inside_addConstant {index : Nat} (run : addConstant span value s = .ok index t)
    (known : value.Inside realm) (before : s.Inside realm) : t.Inside realm := by
  obtain ⟨-, rfl⟩ := addConstant_eq run
  exact before.push known

theorem inside_constant (run : constant span value s = .ok code t) (known : value.Inside realm)
    (before : s.Inside realm) : t.Inside realm := by
  simp only [constant, bind_eq_ok, pure_eq_ok] at run
  obtain ⟨index, _, added, -, rfl⟩ := run
  exact inside_addConstant added known before

variable {name : String} {body : Fragment} {open_ : List String} {modules : ModuleMap}
  {files : Option FileImports}

theorem inside_newFunction (free : realm.Free) {function : Function} (known : function.Inside realm)
    {captured : Nat} (run : newFunction captured body function s = .ok value t)
    (before : s.Inside realm) : value.Inside realm ∧ t.Inside realm := by
  cases run
  exact ⟨before.heap.freshFunction free.newFunctions le_rfl,
    before.constants, before.heap.newFunction known (free.table _), before.compiled⟩

theorem inside_functionOf (lawful : realm.Lawful) {params : List Ident} (few : params.length ≤ 0xFF)
    {variadic : Bool} {scope : Scope} :
      (functionOf span params variadic body scope).Inside realm where
  free _ member := absurd member (not_mem_empty _)
  params := lawful.count (Nat.lt_of_le_of_lt few (by decide))

/-! ## Trees -/

/-- All that is compiled may occur, where names are short. -/
def occurring (realm : Realm) (bound : Nat) : Pass where
  World := Unit
  ok s _ := s.Inside realm
  step _ _ _ t _ := t.Inside realm
  data := Value.Inside realm
  checks := True
  node := Expr.NamesFit bound

variable {bound : Nat}

theorem occurring_laws (free : realm.Free) (small : realm.size bound) :
    (occurring realm bound).Laws where
  ok inside := inside
  refl inside := inside
  trans _ inside := inside
  define run before := by
    cases run
    exact ⟨(), before.table _, trivial⟩
  defineHidden run before := by
    cases run
    exact ⟨(), before.table _, trivial⟩
  resolve run before := by
    cases run
    exact ⟨before.table _, fun _ _ _ => trivial⟩
  markAssigned run before := by
    cases run
    exact before.table _
  constant _ run known before := ⟨inside_constant run known before, trivial⟩
  enter block before := before.enter block
  leave _ inside := inside.leave
  function few _ _ _ _ cells made added := by
    obtain ⟨known, inside⟩ :=
      inside_newFunction free (inside_functionOf free.toLawful few) made cells
    exact ⟨(), inside_addConstant added known inside, trivial⟩
  text fits := free.toLawful.size fits
  keys fits key span value member :=
    free.toLawful.smaller (fits trivial key span value member) small
  field fits := free.toLawful.smaller (fits trivial) small
  names fits name value member := free.toLawful.smaller (fits trivial name value member) small

/-! ## Imports -/

theorem inside_nativeModule {entries : Dict Value} (known : entries.Inside realm)
    (run : nativeModule span name entries s = .ok code t) (before : s.Inside realm) :
      t.Inside realm := by
  obtain ⟨index, u, supplies, -, rfl⟩ := nativeModule_eq run
  have inside : u.Inside realm := by
    cases supplies with
    | again _ => exact before
    | first _ added =>
      obtain ⟨fresh, kept⟩ := before.heap.newMap known
      have map : (Value.immutableMap s.heap.maps.size).Inside realm := fresh.1
      exact { inside_addConstant added map { before with heap := kept } with }
  exact { inside with }

/-- The names in a text are short, however it is numbered. -/
def NamesFitIn (bound : Nat) (text : String) : Prop :=
  ∀ (file : UInt16) (script : Script), Script.parse text file = .ok script →
    script.All (Expr.NamesFit bound)

/-- What may be imported holds what may occur: the names in texts are short, and what the host
offers may occur. -/
structure ImportsShort (realm : Realm) (bound : Nat) (modules : ModuleMap)
    (files : Option FileImports) : Prop where
  source {name text : String} : modules.get? name = some (.source text) → NamesFitIn bound text
  native {name : String} {entries : Dict Value} : modules.get? name = some (.native entries) →
    entries.Inside realm
  file {found : FileImports} {path text : String} :
    files = some found → found.read path = .ok text → NamesFitIn bound text

/-- The functions of modules may occur. -/
theorem occurring_modular (free : realm.Free) (short : ImportsShort realm bound modules files) :
    (occurring realm bound).Modular (occurring realm bound) modules fun _ _ value =>
      value.Inside realm where
  any := id
  reads _ before := { before with }
  makes {s _} before := by
    refine ⟨(), before.table _, fun {_ body v _ span value t} inside _ _ made => ⟨(), ?_⟩⟩
    obtain ⟨known, after⟩ :=
      inside_newFunction free (inside_functionOf free.toLawful (Nat.zero_le _)) made
      (inside.table s.table)
    exact ⟨after, known⟩
  known before member := before.compiled member
  keeps path before known := by
    refine { before with compiled := fun {entry} member => ?_ }
    rcases List.mem_cons.1 member with rfl | old
    · exact known
    · exact before.compiled old
  calls path exits before known added := by
    exact ⟨{ inside_addConstant added known before with }, trivial⟩
  native exits found run before :=
    ⟨(), inside_nativeModule (short.native found) run before, trivial⟩

theorem occurring_fulfils (modules : ModuleMap) :
    (occurring realm bound).Fulfils modules (ImportsShort realm bound modules) := by
  refine ⟨fun short target => ?_⟩
  have texts := ImportTarget.texts short.source short.file target
  exact ⟨⟨short.source, short.native, texts.2⟩, fun _ _ parsed _ => texts.1 _ _ parsed⟩

/-- A program that has been compiled, and the heap that is left behind, hold what may occur. -/
theorem inside_program (free : realm.Free) (small : realm.size bound) {imports : Imports}
    {script : Script} (compiled : Compile.program imports script s = .ok program t)
    (modules : ImportsShort realm bound imports.modules imports.files)
    (fits : script.All (Expr.NamesFit bound)) (before : s.Inside realm) :
    (∀ value ∈ program.constants, value.Inside realm) ∧ t.heap.Inside realm ∧
      realm.function program.main := by
  obtain ⟨body, u, run, rfl, rfl⟩ := program_eq compiled
  have laws := occurring_laws free small
  have all : True → script.All (Expr.NamesFit bound) := fun _ => fits
  obtain ⟨_, inside, -⟩ := Pass.code_stmts ((occurring_modular free modules).import_all
    (occurring_fulfils _) _ modules []) all run (w := ()) before
  refine ⟨fun _ member => inside.constants member, inside.heap.newFunction ?_ (free.table _), ?_⟩
  · exact ⟨fun _ member => absurd member (not_mem_empty _), free.count (Nat.two_pow_pos 64)⟩
  · exact inside.heap.freshFunction free.newFunctions le_rfl

end Compile

/-! ## Merged constants -/

theorem Merged.inside_add {merged : Merged} (known : ∀ value ∈ merged.constants, value.Inside realm)
    {constant : Value} (inside : constant.Inside realm) :
    ∀ value ∈ (merged.add constant).constants, value.Inside realm := by
  have new : ∀ value ∈ merged.constants.push constant, value.Inside realm := by
    intro value member
    rcases mem_push.1 member with old | rfl
    · exact known value old
    · exact inside
  unfold Merged.add
  split
  · exact new
  · split
    · exact known
    · exact new

namespace Program

variable {heap : Heap}

theorem inside_renumberFunction (free : realm.Free) (kept : heap.Inside realm)
    (places : Array Nat) {ref : Nat} (known : realm.function ref) :
    realm.function heap.functions.size ∧ (renumberFunction places ref heap).2.Inside realm := by
  have function := kept.functions known
  exact ⟨kept.freshFunction free.newFunctions le_rfl,
    kept.newFunction ⟨function.free, function.params⟩ (free.table _)⟩

theorem inside_renew (free : realm.Free) (places : Array Nat) {constants : Array Value}
    (known : ∀ value ∈ constants, value.Inside realm) (kept : heap.Inside realm) {constant : Value}
    (inside : constant.Inside realm) :
    (∀ value ∈ (renew places (constants, heap) constant).1, value.Inside realm) ∧
      (renew places (constants, heap) constant).2.Inside realm := by
  have new {constant : Value} (inside : constant.Inside realm) :
      ∀ value ∈ constants.push constant, value.Inside realm := by
    intro value member
    rcases mem_push.1 member with old | rfl
    · exact known value old
    · exact inside
  cases constant with
  | function ref =>
    obtain ⟨fresh, kept⟩ := inside_renumberFunction free kept places inside
    exact ⟨@new (.function heap.functions.size) fresh, kept⟩
  | _ => exact ⟨new inside, kept⟩

/-- Merging brings nothing in but functions with the same variables. -/
theorem inside_merge (free : realm.Free) (known : ∀ value ∈ program.constants, value.Inside realm)
    (kept : heap.Inside realm) (main : realm.function program.main) :
    (∀ value ∈ (program.merge heap).1.constants, value.Inside realm) ∧
      (program.merge heap).2.Inside realm ∧ realm.function (program.merge heap).1.main := by
  unfold merge
  have merged : ∀ value ∈ (program.constants.foldl Merged.add {}).constants, value.Inside realm :=
    foldl_induction
      (fun _ (merged : Merged) => ∀ value ∈ merged.constants, Value.Inside realm value)
      (fun _ member => absurd member (not_mem_empty _))
      fun place _ known' => Merged.inside_add known' (known _ (getElem_mem _))
  generalize program.constants.foldl Merged.add {} = all at merged
  have renewed :
      (∀ value ∈ (all.constants.foldl (renew all.places) (#[], heap)).1, value.Inside realm) ∧
      (all.constants.foldl (renew all.places) (#[], heap)).2.Inside realm :=
    foldl_induction
      (fun _ (made : Array Value × Heap) => (∀ value ∈ made.1, Value.Inside realm value) ∧
        made.2.Inside realm)
      ⟨fun _ member => absurd member (not_mem_empty _), kept⟩
      fun place made known' => inside_renew free _ known'.1 known'.2 (merged _ (getElem_mem _))
  obtain ⟨constants, kept⟩ := renewed
  obtain ⟨fresh, kept⟩ := inside_renumberFunction free kept all.places main
  exact ⟨constants, kept, fresh⟩

end Program

end Skiff
