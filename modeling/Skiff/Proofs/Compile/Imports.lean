import Skiff.Proofs.Compile.Trees
import Skiff.Proofs.Compile.Walk

/-!
# Compilations of modules

An import finds a native module, the function of a module that has been compiled before, or compiles
it now, on a table of its own. So what a pass knows of single modules it knows of all imports, by
induction on how many modules may be open inside one another.
-/

namespace Skiff

open ImportTarget

namespace Compile

variable {s t : CompileState} {span : Span} {code : Fragment} {script : Script}
  {open_ : List String}
  {name path : String} {context : CompileContext} {value : Value} {modules : ModuleMap} {fuel : Nat}
  {files : Option FileImports} {imports : Imports} {program : Program}

section
variable {text : String}

theorem moduleScript_parsed (parsed : Script.parse text (s.files.add path text).2 = .ok script) :
    moduleScript span path text s = .ok script { s with files := (s.files.add path text).1 } := by
  change Script.parse text (.ofNat s.files.files.size) = _ at parsed
  refine (bind_ok rfl).trans ?_
  rw [parsed]
  rfl

theorem moduleScript_broken {errors : List ParseError}
    (broken : Script.parse text (s.files.add path text).2 = .error errors) :
    moduleScript span path text s = .error
      ⟨.moduleParse path (errors.head?.elim "" ParseError.message),
      errors.head?.elim span ParseError.span⟩ { s with files := (s.files.add path text).1 } := by
  change Script.parse text (.ofNat s.files.files.size) = _ at broken
  refine (bind_ok rfl).trans ?_
  rw [broken]
  rfl

theorem moduleScript_eq (run : moduleScript span path text s = .ok script t) :
    { s with files := (s.files.add path text).1 } = t ∧
      Script.parse text (s.files.add path text).2 = .ok script := by
  cases parsed : Script.parse text (s.files.add path text).2 with
  | ok script' =>
    cases (moduleScript_parsed parsed).symm.trans run
    exact ⟨rfl, rfl⟩
  | error errors => cases (moduleScript_broken parsed).symm.trans run

end

/-- How a module is compiled: on a table of its own, and then its function is made. -/
theorem moduleFunction_eq (run : moduleFunction context script s = .ok value t) :
    ∃ body v, stmts context script.stmts #[] { s with table := moduleTable s.table } = .ok body v ∧
      v.table.current.most ≤ 0x100 ∧
      newFunction 0 body (functionOf script.span [] false body v.table.current)
        { v with table := s.table } = .ok value t := by
  simp only [moduleFunction, withTable, bind_eq_ok, get_eq_ok, limit_eq_ok, pure_eq_ok] at run
  obtain ⟨_, _, ⟨rfl, rfl⟩, _, _, ⟨_, _, ⟨rfl, rfl⟩, _, _, entered, _, _, ⟨body, v, compiled, _, _,
    ⟨rfl, rfl⟩, rfl, rfl⟩, _, _, left, rfl, rfl⟩, _, _, ⟨few, rfl⟩, made⟩ := run
  cases entered
  cases left
  exact ⟨body, v, compiled, of_decide_eq_true few, made⟩

/-- The function of a module that is imported, unless too many modules are open. -/
def importBody (modules : ModuleMap) (fuel : Nat) (open_ : List String) (span : Span)
    (files : Option FileImports) (path text : String) : Compile Value :=
  match fuel with
  | 0 => fail (.cyclicImport path) span
  | fuel + 1 => do
    let script ← moduleScript span path text
    let importModule := importModule modules fuel files (path :: open_)
    moduleFunction { inModule := true, importModule } script

/-- The code of an import, given that of source texts. -/
def importTarget (span : Span) (name : String)
    (source : (path text : String) → Option FileImports → Compile Fragment) :
    ImportTarget → Compile Fragment
  | .source path text inner => source path text inner
  | .native entries => nativeModule span name entries
  | .missing fault => fail fault span

theorem importModule_target (modules : ModuleMap) (fuel : Nat) (files : Option FileImports)
    (opened : List String) (span : Span) (name : String) :
    importModule modules fuel files opened span name =
      importTarget span name (fun path text inner =>
        callModule opened span path (importBody modules fuel opened span inner path text))
        (.of modules files name) := by
  unfold importModule of
  by_cases empty : name = ""
  · rw [if_pos empty, limit, if_neg (by simpa using empty)]
    rfl
  · rw [if_neg empty, limit, if_pos (by simpa using empty), pure_bind]
    cases modules.get? name with
    | some module => cases module <;> cases fuel <;> rfl
    | none =>
      cases files with
      | none => rfl
      | some files =>
        dsimp only
        cases files.read (files.path name) <;> cases fuel <;> rfl

/-- An import that succeeds. -/
theorem importModule_ok (run : importModule modules fuel files open_ span name s = .ok code t) :
    (∃ entries, of modules files name = .native entries ∧
      nativeModule span name entries s = .ok code t) ∨
    ∃ path text inner, of modules files name = .source path text inner ∧
      callModule open_ span path (importBody modules fuel open_ span inner path text) s
        = .ok code t := by
  rw [importModule_target] at run
  cases target : of modules files name with
  | source path text inner =>
    rw [target] at run
    exact .inr ⟨path, text, inner, rfl, run⟩
  | native entries =>
    rw [target] at run
    exact .inl ⟨entries, rfl, run⟩
  | missing fault =>
    rw [target] at run
    exact (fail_ne_ok.mp run).elim

/-- How a program is compiled: its statements, and then its main function is made. -/
theorem program_eq (run : Compile.program imports script s = .ok program t) :
    ∃ body u, stmts
      { inModule := false
        importModule := importModule imports.modules (importDepth imports) imports.files [] }
      script.stmts #[] s = .ok body u ∧
      program = { files := u.files, main := u.heap.functions.size, constants := u.constants } ∧
      t = { u with
        heap := (u.heap.newFunction
          { code := (Opcode.suspend.encode []).foldl ByteArray.push body.assemble.1,
            map := body.assemble.2 }).2
        emitted := { function := u.heap.functions.size, body } :: u.emitted } := by
  simp only [Compile.program, bind_eq_ok, get_eq_ok, pure_eq_ok] at run
  obtain ⟨body, u, compiled, _, _, ⟨rfl, rfl⟩, _, v, made, _, _, ⟨rfl, rfl⟩, rfl, rfl⟩ := run
  cases made
  exact ⟨body, u, compiled, rfl, rfl⟩

/-! ## What is known of modules -/

/-- What a pass knows of modules, which are compiled with another pass. Of their functions it knows
that they are `made`. -/
structure Pass.Modular (outer inner : Pass) (modules : ModuleMap)
    (made : CompileState → outer.World → Value → Prop) : Prop where
  any {names names' s w t w'} : outer.step names s w t w' → outer.step names' s w t w'
  reads {s : CompileState} {w} (files : FileSet) :
    outer.ok s w → outer.step [] s w { s with files } w
  makes {s : CompileState} {w} : outer.ok s w →
    ∃ w₀, inner.ok { s with table := moduleTable s.table } w₀ ∧ ∀ {names body v w₁ span value t},
      inner.step names { s with table := moduleTable s.table } w₀ v w₁ →
      inner.code (false = true) v w₁ body → v.table.current.most ≤ 0x100 →
      newFunction 0 body (functionOf span [] false body v.table.current) { v with table := s.table }
        = .ok value t → ∃ w', outer.step names s w t w' ∧ made t w' value
  known {s w path value} : outer.ok s w → (path, value) ∈ s.compiled → made s w value
  keeps {s : CompileState} {w value} (path : String) : outer.ok s w → made s w value →
    outer.step [] s w { s with compiled := (path, value) :: s.compiled } w
  calls {s t : CompileState} {w value span index} (path : String) (exits : Prop) : outer.ok s w →
    made s w value → addConstant span value s = .ok index t →
    outer.step [] s w { t with imported := (path, index) :: t.imported } w ∧
      outer.code exits { t with imported := (path, index) :: t.imported } w
        (.instr span .const [index] ++ .instr span .call [0, 0])
  native {span name entries s code t w} (exits : Prop) :
    modules.get? name = some (.native entries) →
    nativeModule span name entries s = .ok code t → outer.ok s w →
    ∃ w', outer.step [name] s w t w' ∧ outer.code exits t w' code
  silent : (∀ names w error, inner.fails names w error) ∧ (∀ node, inner.may node) ∧
    ∀ name, inner.good name := by exact ⟨fun _ _ _ => trivial, fun _ => trivial, fun _ => trivial⟩

variable {outer inner : Pass} {made : CompileState → outer.World → Value → Prop}

/-- What is fulfilled by the texts that may be imported, and by those that may be imported there. -/
structure Pass.Fulfils (pass : Pass) (modules : ModuleMap) (allowed : Option FileImports → Prop) :
    Prop where
  target {files name path text inner} :
    allowed files → of modules files name = .source path text inner →
    allowed inner ∧ ∀ number script, Script.parse text number = .ok script → pass.checks →
      Stmt.AllItems pass.node script.stmts

variable {allowed : Option FileImports → Prop} [laws : outer.Laws] [inner.Laws]

theorem Pass.Modular.import_step (modular : outer.Modular inner modules made)
    (fulfils : inner.Fulfils modules allowed) (ok : allowed files)
    (deeper : ∀ less files opened, fuel = less + 1 → allowed files →
      inner.GivesImports (importModule modules less files opened)) :
    outer.GivesImports (importModule modules fuel files open_) := by
  refine ⟨fun {span name s code t w} exits run tracks => ?_⟩
  rcases importModule_ok run with ⟨entries, target, run⟩ | ⟨path, text, inner, target, run⟩
  · exact modular.native exits (of_native target) run tracks
  · obtain ⟨-, function, u, index, v, supplies, added, rfl, rfl⟩ := callModule_eq run
    obtain ⟨w', step, function⟩ : ∃ w', outer.step [] s w u w' ∧ made u w' function := by
      cases supplies with
      | again known => exact ⟨w, laws.refl tracks, modular.known tracks (mem_of_lookup known)⟩
      | first _ compiled =>
        cases fuel with
        | zero => exact (fail_ne_ok.mp compiled).elim
        | succ fuel =>
          simp only [importBody, bind_eq_ok] at compiled
          obtain ⟨script, u, read, run⟩ := compiled
          obtain ⟨rfl, parsed⟩ := moduleScript_eq read
          obtain ⟨body, v, compiled, few, run⟩ := moduleFunction_eq run
          obtain ⟨ok, all⟩ := fulfils.target ok target
          have reads := modular.reads (s.files.add path text).1 tracks
          obtain ⟨w₀, inside, makes⟩ := modular.makes (laws.ok reads)
          obtain ⟨w₁, step, code⟩ :=
            Pass.code_stmts (deeper fuel _ _ rfl ok) (all _ _ parsed) compiled
            inside modular.silent
          obtain ⟨w', step, function⟩ := makes step code few run
          have keeps := modular.keeps path (laws.ok step) function
          exact ⟨w', modular.any (laws.trans (laws.trans reads step) keeps),
            modular.known (laws.ok keeps) (List.mem_cons_self ..)⟩
    obtain ⟨calls, code⟩ := modular.calls path exits (laws.ok step) function added
    exact ⟨w', modular.any (laws.trans step calls), code⟩

omit laws in
/-- Every import, however deep imports are nested. -/
theorem Pass.Modular.import_all {made : CompileState → inner.World → Value → Prop}
    (modular : inner.Modular inner modules made) (fulfils : inner.Fulfils modules allowed)
    (fuel : Nat) (ok : allowed files) (opened : List String) :
      inner.GivesImports (importModule modules fuel files opened) := by
  induction fuel generalizing files opened with
  | zero => exact modular.import_step fulfils ok fun _ _ _ same => nomatch same
  | succ fuel ih =>
    refine modular.import_step fulfils ok fun less files opened same ok => ?_
    cases same
    exact ih ok opened

end Compile

end Skiff
