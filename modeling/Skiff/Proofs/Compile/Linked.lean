import Skiff.Proofs.Compile.Modules

/-!
# Modules are compiled once

The imports of a program follow the walk through its modules. Each source text becomes a file and a
function where the walk enters it, a native module becomes a constant where it is first met, and
every later import finds the same function or constant. A cyclic import is reported where the walk
meets a module that it is inside of, unless something else is wrong before that.
-/

namespace Skiff

open List

/-- What the end of a compilation says about its walk. -/
def CompileError.walkEnd (error : CompileError) : WalkEnd :=
  match error.fault.cycle? with
  | some path => .cycle path
  | none => .broken

theorem CompileError.walkEnd_broken {error : CompileError} (acyclic : error.fault.cycle? = none) :
    error.walkEnd = .broken := by
  rw [walkEnd, acyclic]

theorem CompileError.walkEnd_ne_done (error : CompileError) : error.walkEnd ≠ .done := by
  unfold walkEnd
  split <;> exact WalkEnd.noConfusion

/-! ## Imports where cycles may be allowed -/

variable {s t : CompileState} {entries : Dict Value} {function : Value}

namespace Compile

/-- Imports where `onCycle` says what comes of a module that is imported while it is being
compiled. -/
def importOr (onCycle : Span → String → Compile Fragment) (modules : ModuleMap) : (fuel : Nat) →
    (files : Option FileImports) → (opened : List String) → Span → String → Compile Fragment
  | fuel, files, opened, span, name =>
    importTarget span name (fun path text inner =>
      if opened.contains path then onCycle span path
      else callModule [] span path (match fuel with
        | 0 => fail (.cyclicImport path) span
        | fuel + 1 => do
          let script ← moduleScript span path text
          let importModule := importOr onCycle modules fuel inner (path :: opened)
          moduleFunction { inModule := true, importModule } script))
      (.of modules files name)

/-- The program of a syntax tree where `onCycle` says what comes of cyclic imports. -/
def programOr (onCycle : Span → String → Compile Fragment) (imports : Imports) (script : Script) :
    Compile Program := do
  let importModule := importOr onCycle imports.modules (importDepth imports) imports.files []
  let body ← stmts { inModule := false, importModule } script.stmts #[]
  let (code, map) := body.assemble
  let main := (← get).heap.functions.size
  let _ ← newFunction 0 body { code := (Opcode.suspend.encode []).foldl ByteArray.push code, map }
  let state ← get
  return { files := state.files, main, constants := state.constants }

/-- Calls the function of a module and notes the import. -/
def callFunction (span : Span) (path : String) (function : Value) : Compile Fragment := do
  let index ← addConstant span function
  noteImport path index
  return Fragment.instr span .const [index] ++ Fragment.instr span .call [0, 0]

/-- Keeps the function of a module. -/
def keepFunction (path : String) (function : Value) : Compile Unit :=
  modify fun state => { state with compiled := (path, function) :: state.compiled }

section
variable {opened : List String} {span : Span} {path : String} {body : Compile Value}
  {s : CompileState}

theorem callModule_inside (inside : opened.contains path = true) :
    callModule opened span path body s = .error ⟨.cyclicImport path, span⟩ s := by
  rw [callModule, inside]
  rfl

theorem callModule_outside (outside : opened.contains path = false) :
    callModule opened span path body s = (s.compiled.lookup path).elim (do
      let function ← body
      keepFunction path function
      callFunction span path function) (callFunction span path) s := by
  have allowed : limit (!opened.contains path) (.cyclicImport path) span s = .ok () s := by
    rw [outside]
    rfl
  rw [callModule, bind_ok allowed, bind_ok (rfl : (get : Compile CompileState) s = .ok s s)]
  cases s.compiled.lookup path <;> rfl

end

end Compile

/-! ## What is known about modules on a walk -/

/-- An import has been compiled to the function of a module, or to the constant of a native one. -/
def CompileState.Links (s : CompileState) (name : String) (index : Nat) : Prop :=
  (∃ ref, s.compiled.lookup name = some (.function ref) ∧
    s.constants[index]? = some (.function ref)) ∨ s.native.lookup name = some index

/-- The state where a walk has visited some files and is inside of some modules. -/
structure Records (modules : ModuleMap) (before : Array SourceFile) (opened : List String)
    (trail : Trail) (s : CompileState) : Prop where
  files : s.files.files = before ++ trail.files.toArray
  imports : s.imported.map Prod.fst = trail.imports
  compiled {path : String} {value : Value} : (path, value) ∈ s.compiled →
    path ∈ trail.paths ∧ path ∉ opened
  functions {path : String} : path ∈ trail.paths → path ∉ opened →
    ∃ ref, s.compiled.lookup path = some (.function ref)
  native {name : String} {index : Nat} : s.native.lookup name = some index →
    (∃ entries, modules.get? name = some (.native entries)) ∧
      ∃ ref, s.constants[index]? = some (.immutableMap ref)
  once {index index' ref : Nat} : s.constants[index]? = some (.immutableMap ref) →
    s.constants[index']? = some (.immutableMap ref) → index = index'
  below {index ref : Nat} : s.constants[index]? = some (.immutableMap ref) → ref < s.heap.maps.size
  imported {name : String} {index : Nat} : (name, index) ∈ s.imported → s.Links name index

namespace Records

variable {modules : ModuleMap} {before : Array SourceFile} {opened : List String} {trail : Trail}
  {s t : CompileState} {span : Span} {path : String} {ref : Nat} {code : Fragment}

section
variable (records : Records modules before opened trail s)
include records

/-- Tables and functions do not matter. -/
theorem beside {table : SymbolTable} {functions : Array Function} {emitted : List Emission} :
    Records modules before opened trail
      { s with table, emitted, heap := { s.heap with functions } } :=
  { records with }

/-- A constant more that is no map. -/
theorem push {value : Value} (plain : ∀ ref, value ≠ .immutableMap ref) :
    Records modules before opened trail { s with constants := s.constants.push value } := by
  have map {index ref : Nat} (here : (s.constants.push value)[index]? = some (.immutableMap ref)) :
      s.constants[index]? = some (.immutableMap ref) := by
    rw [Array.getElem?_push] at here
    split at here
    · exact absurd (Option.some.inj here) (plain ref)
    · exact here
  refine { records with
    native := fun found => ?_
    once := fun one other => records.once (map one) (map other)
    below := fun here => records.below (map here)
    imported := fun member => ?_ }
  · obtain ⟨isNative, ref, here⟩ := records.native found
    exact ⟨isNative, ref, getElem?_push_of_found here⟩
  · rcases records.imported member with ⟨ref, known, here⟩ | known
    · exact .inl ⟨ref, known, getElem?_push_of_found here⟩
    · exact .inr known

/-- What has no function yet has not been visited. -/
theorem new (outside : path ∉ opened) (unknown : s.compiled.lookup path = none) :
    path ∉ trail.paths := by
  intro met
  obtain ⟨ref, known⟩ := records.functions met outside
  cases unknown.symm.trans known

/-- The number of the next file. -/
theorem number (path text : String) :
    (s.files.add path text).2 = .ofNat (before.size + trail.files.length) := by
  change UInt16.ofNat s.files.files.size = _
  rw [records.files, Array.size_append]
  rfl

/-- The walk enters a module, which becomes a file. -/
theorem enter (text : String) (new : path ∉ trail.paths) :
    Records modules before (path :: opened) (trail.enter path text)
      { s with files := (s.files.add path text).1 } := by
  refine { records with
    files := ?_
    compiled := fun member => ?_
    functions := fun met outside => ?_ }
  · change s.files.files.push (.ofText path text) = before ++ (trail.files ++ [_]).toArray
    rw [records.files, ← Array.append_singleton, Array.append_assoc, ← append_toArray]
  · obtain ⟨met, outside⟩ := records.compiled member
    refine ⟨?_, fun inside => ?_⟩
    · exact map_subset _ (subset_append_left ..) met
    · rcases mem_cons.1 inside with rfl | inside
      · exact new met
      · exact outside inside
  · rw [Trail.paths, Trail.enter, map_append] at met
    rcases mem_append.1 met with old | same
    · exact records.functions old fun inside => outside (mem_cons_of_mem _ inside)
    · rw [mem_singleton.1 same] at outside
      exact absurd (mem_cons_self ..) outside

end

/-- The walk leaves a module, whose function is kept. -/
theorem leave (records : Records modules before (path :: opened) trail s)
    (met : path ∈ trail.paths) (outside : path ∉ opened) :
    Records modules before opened trail
      { s with compiled := (path, .function ref) :: s.compiled } := by
  have lookup (name : String) (apart : name ≠ path) :
      ((path, Value.function ref) :: s.compiled).lookup name = s.compiled.lookup name := by
    rw [lookup_cons, beq_false_of_ne apart]
  refine { records with
    compiled := fun member => ?_
    functions := fun {name} met closed => ?_
    imported := fun member => ?_ }
  · rcases mem_cons.1 member with same | old
    · cases same
      exact ⟨met, outside⟩
    · obtain ⟨met, closed⟩ := records.compiled old
      exact ⟨met, fun inside => closed (mem_cons_of_mem _ inside)⟩
  · by_cases same : name = path
    · exact ⟨ref, by rw [same, lookup_cons_self]⟩
    · obtain ⟨ref', known⟩ := records.functions met fun inside => by
        rcases mem_cons.1 inside with this | inside
        · exact same this
        · exact closed inside
      exact ⟨ref', (lookup name same).trans known⟩
  · rcases records.imported member with ⟨ref', known, here⟩ | known
    · refine .inl ⟨ref', (lookup _ ?_).trans known, here⟩
      rintro rfl
      exact (records.compiled (Compile.mem_of_lookup known)).2 (mem_cons_self ..)
    · exact .inr known

/-- An import is noted. -/
theorem note (records : Records modules before opened trail s) {name : String} {index : Nat}
    (links : s.Links name index) :
    Records modules before opened (trail.note name)
      { s with imported := (name, index) :: s.imported } := by
  refine { records with
    imports := congrArg (name :: ·) records.imports
    imported := fun member => ?_ }
  rcases mem_cons.1 member with same | old
  · cases same
    exact links
  · exact records.imported old

/-- The function of a module is called. -/
theorem calls (records : Records modules before opened trail s)
    (known : s.compiled.lookup path = some (.function ref))
    (run : Compile.callFunction span path (.function ref) s = .ok code t) :
    Records modules before opened (trail.note path) t := by
  simp only [Compile.callFunction, bind_eq_ok, pure_eq_ok] at run
  obtain ⟨index, u, added, _, _, noted, -, rfl⟩ := run
  obtain ⟨rfl, rfl⟩ := Compile.addConstant_eq added
  have records :
      Records modules before opened trail
        { s with constants := s.constants.push (.function ref) } :=
    records.push fun _ => Value.noConfusion
  cases noted
  exact records.note (.inl ⟨ref, known, Array.getElem?_push_size⟩)

variable {name : String}

section
variable (records : Records modules before opened trail s)
  (isNative : modules.get? name = some (.native entries))
include records isNative

/-- The map of a native module is made and becomes a constant. -/
theorem newNative (unknown : s.native.lookup name = none) :
    Records modules before opened trail { s with
      heap := (s.heap.newMap entries).2
      constants := s.constants.push (.immutableMap s.heap.maps.size)
      native := (name, s.constants.size) :: s.native } := by
  have cases_ {index ref : Nat}
      (here : (s.constants.push (.immutableMap s.heap.maps.size))[index]? = some
      (.immutableMap ref)) : index = s.constants.size ∧ ref = s.heap.maps.size ∨
        index ≠ s.constants.size ∧ s.constants[index]? = some (.immutableMap ref) := by
    rw [Array.getElem?_push] at here
    split at here
    · cases here
      exact .inl ⟨‹_›, rfl⟩
    · exact .inr ⟨‹_›, here⟩
  refine { records with
    native := fun {other index} found => ?_
    once := fun one other => ?_
    below := fun here => ?_
    imported := fun {other index} member => ?_ }
  · rw [lookup_cons] at found
    split at found
    · cases found
      obtain rfl := eq_of_beq ‹_›
      exact ⟨⟨entries, isNative⟩, _, Array.getElem?_push_size⟩
    · obtain ⟨isNative', ref, here⟩ := records.native found
      exact ⟨isNative', ref, getElem?_push_of_found here⟩
  · rcases cases_ one with ⟨rfl, new⟩ | ⟨-, one⟩ <;> rcases cases_ other with
      ⟨rfl, new'⟩ | ⟨-, other⟩
    · rfl
    · exact absurd (records.below other) (by omega)
    · exact absurd (records.below one) (by omega)
    · exact records.once one other
  · change _ < (s.heap.maps.push entries).size
    rw [Array.size_push]
    rcases cases_ here with ⟨-, rfl⟩ | ⟨-, here⟩
    · exact Nat.lt_succ_self _
    · exact Nat.lt_succ_of_lt (records.below here)
  · rcases records.imported member with ⟨ref, known, here⟩ | known
    · exact .inl ⟨ref, known, getElem?_push_of_found here⟩
    · refine .inr ((lookup_cons ..).trans ?_)
      split
      · obtain rfl := eq_of_beq ‹_›
        rw [unknown] at known
        cases known
      · exact known

/-- A native module is imported. -/
theorem importNative (run : Compile.nativeModule span name entries s = .ok code t) :
    Records modules before opened (trail.note name) t := by
  obtain ⟨index, u, supplies, -, rfl⟩ := Compile.nativeModule_eq run
  obtain ⟨records, found⟩ : Records modules before opened trail u ∧
      u.native.lookup name = some index := by
    cases supplies with
    | again known => exact ⟨records, known⟩
    | first unknown added =>
      obtain ⟨rfl, rfl⟩ := Compile.addConstant_eq added
      exact ⟨records.newNative isNative unknown, lookup_cons_self⟩
  exact records.note (.inr found)

end

end Records

namespace Compile

variable {modules : ModuleMap} {before : Array SourceFile} {files inner : Option FileImports}
  {opened : List String} {onCycle : Span → String → Compile Fragment} {span : Span}
  {name path text : String}
  {good : String → Prop} {context context' : CompileContext} {exits : Prop}

/-! ## Imports follow the walk -/

/-- Compilations follow the walk through the modules that they import. -/
def follows (modules : ModuleMap) (before : Array SourceFile) (good : String → Prop)
    (files : Option FileImports) (opened : List String) : Pass where
  World := Trail
  ok s trail := Records modules before opened trail s
  step names _ trail t last := Walk modules before.size files opened names trail .done last ∧
    Records modules before opened last t
  data value := ∀ ref, value ≠ .immutableMap ref
  good
  fails names trail error :=
    ∃ last, Walk modules before.size files opened names trail error.walkEnd last

instance : (follows modules before good files opened).Laws where
  ok step := step.2
  refl records := ⟨.done, records⟩
  trans early late := ⟨early.1.append late.1, late.2⟩
  define run records := by
    cases run
    exact ⟨_, ⟨.done, records.beside⟩, trivial⟩
  defineHidden run records := by
    cases run
    exact ⟨_, ⟨.done, records.beside⟩, trivial⟩
  resolve run records := by
    cases run
    exact ⟨⟨.done, records.beside⟩, fun _ _ _ => trivial⟩
  markAssigned run records := by
    cases run
    exact ⟨.done, records.beside⟩
  constant _ run plain records := by
    simp only [constant, bind_eq_ok, pure_eq_ok] at run
    obtain ⟨_, _, added, -, rfl⟩ := run
    obtain ⟨-, rfl⟩ := addConstant_eq added
    exact ⟨⟨.done, records.push plain⟩, trivial⟩
  enter _ records := records.beside
  leave _ step := ⟨step.1, step.2.beside⟩
  function _ _ _ _ _ captures made added := by
    cases made
    obtain ⟨-, rfl⟩ := addConstant_eq added
    exact ⟨_, ⟨.done, captures.2.beside.push fun _ => Value.noConfusion⟩, trivial⟩
  number _ _ := Value.noConfusion
  double _ _ := Value.noConfusion
  character _ _ := Value.noConfusion
  text _ _ := Value.noConfusion
  keys _ _ _ _ _ _ := Value.noConfusion
  field _ _ := Value.noConfusion
  names _ _ _ _ _ := Value.noConfusion
  faults {_ trail _} acyclic _ := by
    refine ⟨trail, ?_⟩
    rw [CompileError.walkEnd_broken acyclic]
    exact .broken
  early fails := by
    obtain ⟨last, walk⟩ := fails
    exact ⟨last, walk.extend (CompileError.walkEnd_ne_done _)⟩
  late early fails := by
    obtain ⟨last, walk⟩ := fails
    exact ⟨last, early.1.append walk⟩

/-- A change of the table, or a new function. -/
theorem yields_beside {α : Type} {change : CompileState → α × CompileState} {facts : List Pass.Fact}
    (beside : ∀ {trail s}, Records modules before opened trail s →
    Records modules before opened trail (change s).2) :
    Yields onCycle (follows modules before good files opened) [] facts (modifyGet change)
      (modifyGet change) fun _ => .nothing := by
  refine Blames.modifyGet.yields ⟨fun run records _ => ?_⟩
  cases run
  exact ⟨_, ⟨.done, beside records⟩, trivial⟩

theorem yields_moduleFunction
    (same : Meets onCycle (follows modules before good files opened) context context')
    (script : Script) :
    Yields onCycle (follows modules before good files opened) script.imports []
      (moduleFunction context script) (moduleFunction context' script) fun _ => .nothing := by
  refine Yields.get.before fun state => .andThen (Yields.get.before fun outer => .before
    (yields_beside fun records => records.beside) fun _ =>
      .andThen (.andThen (yields_stmts same script.stmts #[]
      (fun _ _ => trivial) False.elim fun _ => trivial) fun _ => Yields.get.before fun _ => .ends)
    fun _ => .before (yields_beside fun records => records.beside) fun _ => .ends) fun result => ?_
  exact .limit trivial rfl fun _ => yields_beside fun records => records.beside

theorem blames_callFunction : Blames (fun _ => True) (callFunction span path function) :=
  (blames_addConstant trivial _).bind fun _ => Blames.modifyGet.bind fun _ => .pure

theorem blames_nativeModule : Blames (fun _ => True) (nativeModule span name entries) := by
  refine Blames.get.bind fun state => ?_
  split
  · exact Blames.pure.bind fun _ => Blames.modifyGet.bind fun _ => .pure
  · exact Blames.modifyGet.bind fun _ => (blames_addConstant trivial _).bind fun _ =>
      Blames.modifyGet.bind fun _ => Blames.pure.bind fun _ => Blames.modifyGet.bind fun _ => .pure

/-- The import of a source text outside of which the walk is. -/
theorem yields_source (target : ImportTarget.of modules files name = .source path text inner)
    (outside : opened.contains path = false)
    (same : Meets onCycle (follows modules before good inner (path :: opened)) context context')
    (goods : ∀ name, Imported text name → good name) :
    Yields onCycle (follows modules before good files opened) [name] []
      (callModule opened span path (do moduleFunction context (← moduleScript span path text)))
      (callModule [] span path (do moduleFunction context' (← moduleScript span path text)))
        (.code exits) := by
  have outside' : path ∉ opened := by simpa using outside
  have goods {script : Script} {number : UInt16} (parsed : Script.parse text number = .ok script) :
      ∀ name ∈ script.imports, (follows modules before good inner (path :: opened)).good name :=
    fun name member => goods name ⟨number, script, parsed, member⟩
  constructor
  · intro s code t trail _ run records _
    cases known : s.compiled.lookup path with
    | some function =>
      rw [callModule_outside outside, known, Option.elim] at run
      rw [callModule_outside rfl, known, Option.elim]
      obtain ⟨met, -⟩ := records.compiled (mem_of_lookup known)
      obtain ⟨ref, found⟩ := records.functions met outside'
      cases known.symm.trans found
      exact ⟨run, _, ⟨.again target outside' met .done, records.calls known run⟩, trivial⟩
    | none =>
      rw [callModule_outside outside, known, Option.elim, bind_eq_ok] at run
      obtain ⟨function, u, compiled, run⟩ := run
      rw [bind_eq_ok] at run
      obtain ⟨_, _, kept, called⟩ := run
      cases kept
      cases parsed : Script.parse text (s.files.add path text).2 with
      | error errors =>
        rw [bind_error (moduleScript_broken parsed)] at compiled
        cases compiled
      | ok script =>
        rw [bind_ok (moduleScript_parsed parsed)] at compiled
        have new := records.new outside' known
        obtain ⟨compiled', last, ⟨walk, records'⟩, -⟩ :=
          (yields_moduleFunction same script).ok (goods parsed) compiled
            (records.enter text new) trivial
        have met : path ∈ last.paths :=
          mem_map.2 ⟨_, walk.grows.subset (mem_append_right _ (mem_singleton_self _)), rfl⟩
        obtain ⟨body, v, -, -, made⟩ := moduleFunction_eq compiled
        cases made
        rw [callModule_outside rfl, known, Option.elim,
          bind_ok ((bind_ok (moduleScript_parsed parsed)).trans compiled')]
        refine ⟨called, _, ⟨.enter target outside' new ?_ walk .done, ?_⟩, trivial⟩
        · rw [← records.number path text]
          exact parsed
        · exact (records'.leave met outside').calls lookup_cons_self called
  · intro s error t trail _ run records _
    cases known : s.compiled.lookup path with
    | some function =>
      rw [callModule_outside outside, known, Option.elim] at run
      rw [callModule_outside rfl, known, Option.elim, run]
      obtain ⟨acyclic, -⟩ := blames_callFunction.failed run
      exact ⟨.same acyclic, Pass.Laws.faults acyclic trivial⟩
    | none =>
      rw [callModule_outside outside, known, Option.elim, bind_eq_error] at run
      rw [callModule_outside rfl, known, Option.elim]
      cases parsed : Script.parse text (s.files.add path text).2 with
      | error errors =>
        rw [bind_error (moduleScript_broken parsed)] at run
        obtain failed | ⟨_, _, compiled, -⟩ := run
        · cases failed
          rw [bind_error (bind_error (moduleScript_broken parsed))]
          exact ⟨.same rfl, Pass.Laws.faults rfl trivial⟩
        · cases compiled
      | ok script =>
        rw [bind_ok (moduleScript_parsed parsed)] at run
        have new := records.new outside' known
        have both := yields_moduleFunction same script
        obtain failed | ⟨function, u, compiled, run⟩ := run
        · obtain ⟨goesOn, last, walk⟩ :=
            both.failed (goods parsed) failed (records.enter text new) trivial
          have begun : (do moduleFunction context' (← moduleScript span path text)) s = _ :=
            bind_ok (moduleScript_parsed parsed)
          rw [← begun] at goesOn
          rw [records.number path text] at parsed
          exact ⟨goesOn.bind, last, .stop target outside' new parsed walk
            (CompileError.walkEnd_ne_done _)⟩
        · obtain ⟨compiled', -⟩ := both.ok (goods parsed) compiled (records.enter text new) trivial
          obtain ⟨acyclic, -⟩ := (Blames.modifyGet.bind fun _ => blames_callFunction).failed run
          rw [bind_ok ((bind_ok (moduleScript_parsed parsed)).trans compiled'), run]
          exact ⟨.same acyclic, Pass.Laws.faults acyclic trivial⟩

theorem acyclic_missing {fault : CompileFault}
    (target : ImportTarget.of modules files name = .missing fault) : fault.cycle? = none := by
  cases ImportTarget.found target with
  | missing acyclic =>
    cases fault with
    | cyclicImport path => exact absurd rfl (acyclic path)
    | _ => rfl

theorem Yields.of_good {pass : Pass} {action action' : Compile Fragment}
    {fact : Fragment → Pass.Fact}
    (yields : pass.good name → Yields onCycle pass [name] [] action action' fact) :
    Yields onCycle pass [name] [] action action' fact :=
  ⟨fun goods => (yields (goods name (mem_singleton_self _))).ok goods,
    fun goods => (yields (goods name (mem_singleton_self _))).failed goods⟩

/-- Every import follows the walk, if those inside of the module that it enters do. -/
theorem yields_target {body body' : (path text : String) → Option FileImports → Compile Value}
    (bodies : ∀ {path text inner}, good name →
      ImportTarget.of modules files name = .source path text inner →
      opened.contains path = false → ∃ context context', (∀ name, Imported text name → good name) ∧
        Meets onCycle (follows modules before good inner (path :: opened)) context context' ∧
          body path text inner = (do moduleFunction context (← moduleScript span path text)) ∧
          body' path text inner = (do moduleFunction context' (← moduleScript span path text))) :
    Yields onCycle (follows modules before good files opened) [name] []
      (importTarget span name (fun path text inner =>
        callModule opened span path (body path text inner)) (.of modules files name))
      (importTarget span name (fun path text inner =>
        if opened.contains path then onCycle span path else callModule [] span path
          (body' path text inner))
        (.of modules files name)) (.code exits) := by
  cases target : ImportTarget.of modules files name with
  | missing fault => exact .fail trivial (acyclic_missing target)
  | native entries =>
    refine ⟨fun _ run records _ => ⟨run, _, ⟨.native target .done, records.importNative
      (ImportTarget.of_native target) run⟩, trivial⟩, fun {s error t _} _ run _ _ => ?_⟩
    obtain ⟨acyclic, -⟩ := blames_nativeModule.failed run
    change GoesOn onCycle error t (nativeModule span name entries s) ∧ _
    rw [show nativeModule span name entries s = .error error t from run]
    exact ⟨.same acyclic, Pass.Laws.faults acyclic trivial⟩
  | source path text inner =>
    dsimp only [importTarget]
    cases inside : opened.contains path with
    | true =>
      rw [if_pos rfl]
      refine ⟨fun {s code t _} _ run => ?_, fun {s error t trail} _ run _ _ => ?_⟩
      · rw [callModule_inside inside] at run
        cases run
      · rw [callModule_inside inside] at run
        cases run
        have goesOn :
            GoesOn onCycle ⟨.cyclicImport path, span⟩ s ((onCycle span path >>= pure) s) := .cycle _
        rw [bind_pure] at goesOn
        exact ⟨goesOn, trail, .cycle target (by simpa using inside)⟩
    | false =>
      rw [if_neg Bool.false_ne_true]
      refine .of_good fun isGood => ?_
      obtain ⟨context, context', goods, same, here, here'⟩ := bodies isGood target inside
      rw [here, here']
      exact yields_source target inside same goods

/-- Every import follows the walk, as far as there are names for modules inside of one another. -/
theorem yields_import {paths : List String} {allowed : Option FileImports → Prop}
    (within : PathsWithin modules paths allowed good) (fuel : Nat) (ok : allowed files)
    (distinct : opened.Nodup) (sub : opened ⊆ paths) (enough : paths.length ≤ opened.length + fuel)
    (span : Span) (name : String) (exits : Prop) :
    Yields onCycle (follows modules before good files opened) [name] []
      (importModule modules fuel files opened span name)
      (importOr onCycle modules fuel files opened span name) (.code exits) := by
  induction fuel generalizing files opened span name exits with
  | zero =>
    rw [importModule_target, importOr]
    refine yields_target fun {path text inner} isGood target outside => ?_
    -- There is no path left for another module.
    have more := (subperm_of_subset (nodup_cons.2 ⟨by simpa using outside, distinct⟩)
      (cons_subset.2 ⟨(within.target ok isGood target).1, sub⟩)).length_le
    rw [length_cons] at more
    omega
  | succ fuel ih =>
    rw [importModule_target, importOr]
    refine yields_target fun {path text inner} isGood target outside => ?_
    obtain ⟨member, ok, goods⟩ := within.target ok isGood target
    have outside : path ∉ opened := by simpa using outside
    refine ⟨{ inModule := true, importModule := importModule modules fuel inner (path :: opened) },
      { inModule := true, importModule := importOr onCycle modules fuel inner (path :: opened) },
      goods, ⟨rfl, rfl, rfl, fun _ => ih ok ?_ ?_ ?_ _⟩, rfl, rfl⟩
    · exact nodup_cons.2 ⟨outside, distinct⟩
    · exact cons_subset.2 ⟨member, sub⟩
    · rw [length_cons]
      omega

theorem pathsWithin_modules (modules : ModuleMap) :
    PathsWithin modules (modules.entries.toList.map Prod.fst) (· = none) fun _ => True := by
  refine ⟨fun {files inner name path text} noFiles _ target => ?_⟩
  subst noFiles
  obtain ⟨rfl, rfl, found⟩ := ImportTarget.of_none_source target
  refine ⟨?_, rfl, fun _ _ => trivial⟩
  obtain ⟨place, here, -⟩ := Option.map_eq_some_iff.1 found
  exact mem_map.2 ⟨_, Array.getElem_mem_toList _, Dict.key_of_find? here⟩

end Compile

/-- Nothing has been imported yet, and no map is a constant. -/
structure CompileState.Unlinked (s : CompileState) : Prop where
  compiled : s.compiled = []
  native : s.native = []
  imported : s.imported = []
  constants (index ref : Nat) : s.constants[index]? ≠ some (.immutableMap ref)

theorem CompileState.Unlinked.records (fresh : s.Unlinked) (modules : ModuleMap) :
    Records modules s.files.files [] {} s := by
  obtain ⟨compiled, native, imported, constants⟩ := fresh
  refine ⟨Array.append_empty.symm, by rw [imported]; rfl, fun member => ?_, fun met =>
    absurd met not_mem_nil,
    fun found => ?_, fun here => absurd here (constants _ _), fun here =>
      absurd here (constants _ _),
    fun member => ?_⟩
  · rw [compiled] at member
    exact absurd member not_mem_nil
  · rw [native] at found
    cases found
  · rw [imported] at member
    exact absurd member not_mem_nil

namespace Compile

section
variable {imports : Imports} {script : Script} {s : CompileState} {paths : List String}
  {allowed : Option FileImports → Prop} (within : PathsWithin imports.modules paths allowed good)
  (ok : allowed imports.files) (enough : paths.length ≤ importDepth imports)
  (goods : ∀ name ∈ script.imports, good name)
include within ok enough

theorem yields_program (before : Array SourceFile) (script : Script)
    (onCycle : Span → String → Compile Fragment) :
    Yields onCycle (follows imports.modules before good imports.files []) script.imports []
      (program imports script) (programOr onCycle imports script) fun _ => .nothing := by
  have context : Meets onCycle (follows imports.modules before good imports.files [])
      { inModule := false
        importModule := importModule imports.modules (importDepth imports) imports.files [] }
      { inModule := false
        importModule := importOr onCycle imports.modules (importDepth imports) imports.files [] } :=
    ⟨rfl, rfl, rfl, fun _ =>
      yields_import within _ ok nodup_nil (nil_subset _) (by simpa using enough) _⟩
  exact .andThen (yields_stmts context script.stmts #[] (fun _ _ => trivial) False.elim
    fun _ => trivial)
    fun _ => Yields.get.before fun _ =>
      .before (yields_beside fun records => records.beside) fun _ =>
      Yields.get.before fun _ => .ends

include goods

/-- A cyclic import is reported exactly where the walk meets a module that it is inside of, unless
there is an error before, which comes whatever cyclic imports do. -/
theorem cyclicImport_iff (fresh : s.Unlinked) (path : String) :
    (∃ span t, program imports script s = .error ⟨.cyclicImport path, span⟩ t) ↔
      (∃ last, Walk imports.modules s.files.size imports.files [] script.imports {}
        (.cycle path) last) ∧
        ¬ ∃ error t, ∀ onCycle, programOr onCycle imports script s = .error error t := by
  have yields := yields_program within ok enough s.files.files script
  have records := fresh.records imports.modules
  -- For the walk it does not matter what cyclic imports do.
  have strict := yields fun span path => fail (.cyclicImport path) span
  constructor
  · rintro ⟨span, t, run⟩
    refine ⟨(strict.failed goods run records trivial).2, ?_⟩
    rintro ⟨error, t', all⟩
    have reported (fault : CompileFault) : error = ⟨fault, {}⟩ := by
      obtain ⟨rest, result⟩ :=
        ((yields fun _ _ => fail fault {}).failed goods run records trivial).1.of_cycle
      cases (all _).symm.trans result
      rfl
    cases (reported .stringLimit).symm.trans (reported .assignTarget)
  · rintro ⟨⟨last, walk⟩, noOther⟩
    cases run : program imports script s with
    | ok program t =>
      obtain ⟨-, last', ⟨walk', -⟩, -⟩ := strict.ok goods run records trivial
      cases (walk.unique walk' WalkEnd.noConfusion WalkEnd.noConfusion).1
    | error error t =>
      obtain ⟨-, last', walk'⟩ := strict.failed goods run records trivial
      cases cycle : error.fault.cycle? with
      | none =>
        refine absurd ⟨error, t, fun onCycle => ?_⟩ noOther
        exact ((yields onCycle).failed goods run records trivial).1.of_acyclic cycle
      | some path' =>
        rw [CompileError.walkEnd, cycle] at walk'
        cases (walk.unique walk' WalkEnd.noConfusion WalkEnd.noConfusion).1
        obtain ⟨fault, span⟩ := error
        obtain rfl := CompileFault.eq_of_cycle? cycle
        exact ⟨span, t, rfl⟩

/-- The imports of a program follow the walk to its end. -/
theorem records_program {program : Program} (fresh : s.Unlinked)
    (run : Compile.program imports script s = .ok program t) :
    ∃ last, Walk imports.modules s.files.size imports.files [] script.imports {} .done last ∧
      Records imports.modules s.files.files [] last t := by
  have strict := yields_program within ok enough s.files.files script fun span path =>
    fail (.cyclicImport path) span
  obtain ⟨-, last, follows, -⟩ := strict.ok goods run (fresh.records imports.modules) trivial
  exact ⟨last, follows⟩

end

/-- The modules of a program are compiled along the walk through its imports. A cyclic import is
reported exactly where the walk meets a module that it is inside of, unless there is an error
before, which comes whatever cyclic imports do. Otherwise every source text that can be reached is
one file, in the order of the walk; all imports of it call one function, and all imports of a native
module push one constant, which no other constant is like. -/
theorem modules_once {modules : ModuleMap} {script : Script} {s : CompileState}
    (fresh : s.Unlinked) :
    (∀ path, (∃ span t, program { modules } script s = .error ⟨.cyclicImport path, span⟩ t) ↔
      (∃ last, Walk modules s.files.size none [] script.imports {} (.cycle path) last) ∧
        ¬ ∃ error t, ∀ onCycle, programOr onCycle { modules } script s = .error error t) ∧
    ∀ program t, Compile.program { modules } script s = .ok program t →
      ∃ last, Walk modules s.files.size none [] script.imports {} .done last ∧
        program.files.files = s.files.files ++ last.files.toArray ∧ last.paths.Nodup ∧
        (∀ name ∈ script.imports, last.Meets modules name) ∧
        (∀ place file, last.files[place]? = some file →
          last.Through modules (s.files.size + place) file) ∧
        t.imported.map Prod.fst = last.imports ∧
        ∀ name index, (name, index) ∈ t.imported →
          (∀ text, modules.get? name = some (.source text) → ∃ ref,
            t.compiled.lookup name = some (.function ref) ∧
              program.constants[index]? = some (.function ref)) ∧
          ∀ entries, modules.get? name = some (.native entries) →
            t.native.lookup name = some index ∧
            ∃ ref, program.constants[index]? = some (.immutableMap ref) ∧
              ∀ other, program.constants[other]? = some (.immutableMap ref) → other = index := by
  have within := pathsWithin_modules modules
  have enough : (modules.entries.toList.map Prod.fst).length ≤ importDepth { modules } := by
    rw [length_map]
    exact Nat.le_add_right ..
  have noFiles : ({ modules } : Imports).files = none := rfl
  refine ⟨cyclicImport_iff within noFiles enough (fun _ _ => trivial) fresh,
    fun program t run => ?_⟩
  obtain ⟨last, walk, records⟩ :=
    records_program within noFiles enough (fun _ _ => trivial) fresh run
  obtain ⟨reaches, behind⟩ := walk.closed within noFiles fun _ _ => trivial
  have meets {name : String} (reaches : last.Reaches modules none name) :
      last.Meets modules name := by
    intro text source
    rcases reaches with ⟨entries, target⟩ | ⟨path, text', inner, target, met⟩
    · cases source.symm.trans (ImportTarget.of_native target)
    · obtain ⟨rfl, -, -⟩ := ImportTarget.of_none_source target
      exact met
  have through (place : Nat) (file : SourceFile) (here : last.files[place]? = some file) :
      last.Through modules (s.files.size + place) file := by
    obtain ⟨files, name, rfl, -, inner, target, script, parsed, met⟩ :=
      behind place file (Nat.zero_le _) here
    obtain ⟨rfl, rfl, source⟩ := ImportTarget.of_none_source target
    exact ⟨source, script, parsed, fun name member => meets (met name member)⟩
  obtain ⟨body, u, -, rfl, rfl⟩ := program_eq run
  refine ⟨last, walk, records.files, walk.nodup nodup_nil, fun name member =>
    meets (reaches name member),
    through, records.imports, fun name index member =>
      ⟨fun text source => ?_, fun entries native => ?_⟩⟩
  · rcases records.imported member with linked | found
    · exact linked
    · obtain ⟨⟨entries, native⟩, -⟩ := records.native found
      cases source.symm.trans native
  · rcases records.imported member with ⟨ref, known, -⟩ | found
    · obtain ⟨met, -⟩ := records.compiled (mem_of_lookup known)
      obtain ⟨file, here, rfl⟩ := mem_map.1 met
      obtain ⟨place, there⟩ := getElem?_of_mem here
      cases native.symm.trans (through place file there).isModule
    · obtain ⟨-, ref, here⟩ := records.native found
      exact ⟨found, ref, here, fun other there => records.once there here⟩

/-- Two modules that import a third one and a native one. -/
def diamond : ModuleMap :=
  .ofList [("left", .source "export [import(\"shared\"), import(\"host\")]"),
    ("right", .source "export [import(\"host\"), import(\"shared\")]"),
    ("shared", .source "export func() \x7b\x7d"), ("host", .native .empty)]

/-- A program that imports modules one after the other. -/
def importingAll (names : List String) : Script :=
  { stmts := names.map fun name => .expr {} (.importModule {} name), span := {} }

theorem unlinked_withBuiltins : CompileState.Unlinked { table := .withBuiltins } :=
  ⟨rfl, rfl, rfl, fun index ref => by simp⟩

/-- What a program has imported, if it has been compiled. -/
def importedBy : EStateM.Result CompileError CompileState Program → List String
  | .ok _ t => t.imported.map Prod.fst
  | .error _ _ => []

theorem modules_once_diamond :
    ∃ program t last, Compile.program { modules := diamond } (importingAll ["left", "right"])
        { table := .withBuiltins } = .ok program t ∧
      last.imports = ["right", "shared", "host", "left", "host", "shared"] ∧
      Walk diamond 0 none [] ["left", "right"] {} .done last ∧ last.paths.Nodup ∧
      program.files.files = last.files.toArray := by
  have imported :
      importedBy (Compile.program { modules := diamond } (importingAll ["left", "right"])
      { table := .withBuiltins }) = ["right", "shared", "host", "left", "host", "shared"] := by
    decide +kernel
  cases run : Compile.program { modules := diamond } (importingAll ["left", "right"])
    { table := .withBuiltins } with
  | error error t =>
    rw [run] at imported
    exact absurd imported (cons_ne_nil _ _).symm
  | ok program t =>
    rw [run] at imported
    obtain ⟨last, walk, files, distinct, -, -, imports, -⟩ :=
      (modules_once unlinked_withBuiltins).2 program t run
    exact ⟨program, t, last, rfl, imports.symm.trans imported, walk, distinct,
      files.trans (Array.empty_append ..)⟩

theorem eq_ok_of_toOption {ε α : Type} {result : Except ε α} {value : α}
    (found : result.toOption = some value) : result = .ok value := by
  cases result with
  | error e => cases found
  | ok other =>
    cases found
    rfl

/-- Two modules that import themselves. -/
def loops : ModuleMap :=
  ⟨#[("a", .source "import(\"a\")"), ("b", .source "import(\"b\")")], by decide⟩

def crossingText : String := "for ; true ; import(\"a\") \x7b import(\"b\") \x7d"

/-- The module in which a program has met a cycle. -/
def cycleOf : EStateM.Result CompileError CompileState Program → Option String
  | .ok _ _ => none
  | .error error _ => error.fault.cycle?

/-- In the text `a` comes before `b`, but the body of a loop is compiled before what stands above
it. -/
theorem cycle_out_of_order :
    ∃ script span t, Script.parse crossingText 0 = .ok script ∧
      Compile.program { modules := loops } script { table := .withBuiltins }
        = .error ⟨.cyclicImport "b", span⟩ t ∧
      ∃ last, Walk loops 0 none [] ["a", "b"] {} (.cycle "a") last := by
  have reported : ((Script.parse crossingText 0).toOption.bind fun script =>
      cycleOf (Compile.program { modules := loops } script { table := .withBuiltins }))
        = some "b" := by
    decide +kernel
  have imports : (Script.parse "import(\"a\")" 0).toOption.map Script.imports = some ["a"] := by
    decide +kernel
  have found : loops.get? "a" = some (.source "import(\"a\")") := by
    rw [Dict.get?_eq]
    rfl
  have target := ImportTarget.of_source found (by decide)
  obtain ⟨script, parsed, cycle⟩ := Option.bind_eq_some_iff.1 reported
  obtain ⟨module, parsed', same⟩ := Option.map_eq_some_iff.1 imports
  cases run : Compile.program { modules := loops } script { table := .withBuiltins } with
  | ok program t =>
    rw [run] at cycle
    cases cycle
  | error error t =>
    rw [run] at cycle
    obtain ⟨fault, span⟩ := error
    obtain rfl := CompileFault.eq_of_cycle? cycle
    have inside : Walk loops 0 none ["a"] module.imports (Trail.enter {} "a" "import(\"a\")")
        (.cycle "a") (Trail.enter {} "a" "import(\"a\")") := by
      rw [same]
      exact .cycle target (mem_singleton_self _)
    exact ⟨script, span, t, eq_ok_of_toOption parsed, run, _, .stop target not_mem_nil
      not_mem_nil (eq_ok_of_toOption parsed') inside WalkEnd.noConfusion⟩

end Compile

end Skiff
