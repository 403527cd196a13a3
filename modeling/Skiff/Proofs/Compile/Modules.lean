import Skiff.Proofs.Compile.Bodies
import Skiff.Proofs.Compile.Imports
import Skiff.Proofs.Tree.Script

/-!
# Modules and programs

The function of a module is made from a body that leads to its end, as those of function expressions
are. A module is compiled with a table of its own, in which there are no global variables.
-/

namespace Skiff

open List SymbolTable ImportTarget

variable {table : SymbolTable}

namespace SymbolTable

/-! ## Tables of builtins -/

/-- A table with builtins and nothing else. -/
structure OnlyBuiltins (table : SymbolTable) : Prop where
  keeps : table.Keeps {}
  outside : table.inFunction = false
  builtin {id : Nat} {slot : Storage × Nat} : slotOf? table.symbols id = some slot →
    slot.1 = .builtin

theorem onlyBuiltins_empty : OnlyBuiltins {} := by
  have none {name : String} {id : Nat} {scope : Scope} (member : scope ∈ ({} : SymbolTable).chain)
      (here : scope.names[name]? = some id) : False := by
    obtain rfl := mem_singleton.1 member
    simp at here
  have noSlot {id : Nat} {slot : Storage × Nat} (here : slotOf? #[] id = some slot) : False := by
    simp [slotOf?] at here
  exact ⟨⟨slotInvariant_empty, ⟨soundScope_empty _ _, trivial⟩, fun member here =>
    (none member here).elim,
    fun member here => (none member here).elim, (absurd · not_mem_nil), fun here =>
      (noSlot here).elim,
    (absurd · Bool.false_ne_true)⟩, rfl,
    fun here => (noSlot here).elim⟩

theorem OnlyBuiltins.defineBuiltin (only : OnlyBuiltins table) {index : Nat}
    (few : index < Builtin.all.length) (name : String) :
      OnlyBuiltins (table.defineBuiltin index name).1 := by
  have slot {id : Nat} {slot : Storage × Nat}
      (here : slotOf? (table.defineBuiltin index name).1.symbols id = some slot) :
      slot = (.builtin, index) ∨ slotOf? table.symbols id = some slot := by
    have pushed := slotOf?_push table.symbols { name, storage := .builtin, index } id
    rw [show (table.defineBuiltin index name).1.symbols = table.symbols.push
      { name, storage := .builtin, index } from rfl, pushed] at here
    split at here
    · exact .inl (Option.some.inj here).symm
    · exact .inr here
  have builtin {id : Nat} {found : Storage × Nat}
      (here : slotOf? (table.defineBuiltin index name).1.symbols id = some found) :
        found.1 = .builtin := by
    rcases slot here with rfl | old
    · rfl
    · exact only.builtin old
  refine ⟨⟨only.keeps.slots.change (.defineBuiltin index name),
    (sound_change only.keeps.sound (.defineBuiltin index name)).1,
    fun _ _ here => ?_, fun _ _ => nofun,
    nofun, fun here => ?_, nofun⟩, only.outside, builtin⟩
  · cases builtin here
  · rcases slot here with same | old
    · cases same
      exact few
    · exact only.keeps.builtin old

theorem onlyBuiltins_withBuiltins : OnlyBuiltins .withBuiltins := by
  have few : ∀ pair ∈ Builtin.all.zipIdx, pair.2 < Builtin.all.length := by
    intro pair member
    have := snd_lt_add_of_mem_zipIdx member
    omega
  exact foldlRecOn (motive := OnlyBuiltins) _ _ onlyBuiltins_empty fun table only pair member =>
    only.defineBuiltin (few pair member) _

end SymbolTable

namespace Compile

variable {few : Prop} {s t u : CompileState} {span : Span} {code : Fragment}

/-- The table of a module, which is inside of a function that is inside of no other. -/
theorem roomy_moduleTable {importer : SymbolTable} (roomy : importer.Roomy) :
    (moduleTable importer).Roomy ∧ chainInFunction (moduleTable importer).outer = false := by
  have few : ∀ symbol ∈ importer.builtins, symbol.index < Builtin.all.length := by
    intro symbol member
    rw [SymbolTable.builtins, List.mem_mergeSort, List.mem_filter, List.mem_map] at member
    obtain ⟨⟨id, known, rfl⟩, isBuiltin⟩ := member
    have isBuiltin : (importer.symbol id).storage = .builtin := by simpa using isBuiltin
    have made : importer.symbols[id]? = some (importer.symbol id) := by
      rw [SymbolTable.symbol, Array.getD_eq_getD_getElem?]
      cases here : importer.symbols[id]? with
      | some symbol => rfl
      | none =>
        rw [SymbolTable.symbol, Array.getD_eq_getD_getElem?, here] at isBuiltin
        cases isBuiltin
    have slot := slotOf?_of_made made
    rw [isBuiltin] at slot
    exact roomy.builtin slot
  have only : OnlyBuiltins (importer.builtins.foldl (fun (table : SymbolTable) builtin =>
      (table.defineBuiltin builtin.index builtin.name).1) {}) :=
    foldlRecOn (motive := OnlyBuiltins) _ _ onlyBuiltins_empty
      fun table only symbol member => only.defineBuiltin (few symbol member) _
  exact ⟨only.keeps.roomy.enter false, only.outside⟩

variable {script : Script} {open_ : List String} {exits : Prop} {name path : String}
  {context : CompileContext} {value : Value} {modules : ModuleMap} {fuel : Nat}
  {files : Option FileImports} {imports : Imports} {program : Program}

/-- The table of a module is that of a function which is inside of no other. -/
theorem table_module (roomy : t.table.Roomy) (grows : Grows (moduleTable s.table) t.table)
    (alone : chainInFunction (moduleTable s.table).outer = false) :
    t.table.current.block = false ∧ t.table.current.captured.size = 0 := by
  obtain ⟨isFunction, alone⟩ :
      t.table.current.block = false ∧ chainInFunction t.table.outer = false := by
    have chain := grows.chain
    rw [SymbolTable.chain, SymbolTable.chain] at chain
    generalize t.table.outer = outer at chain ⊢
    generalize t.table.current = current at chain ⊢
    cases chain with
    | cons first later =>
      exact ⟨first.block, (chainInFunction_related Deepens.block later).trans alone⟩
  rw [captured_outside roomy.sound roomy.locals.2 alone]
  exact ⟨isFunction, rfl⟩

/-- Files, maps and the list of imports do not matter. -/
theorem Orderly.beside (orderly : Orderly s) (files : FileSet) (imported : List (String × Nat))
    (maps : Array (Dict Value)) :
      Advances few s { s with files, imported, heap := { s.heap with maps } } :=
  ⟨{ orderly with }, .refl _, id, .inl, fun listed => { listed with }⟩

theorem leads_nativeModule {entries : Dict Value}
    (run : nativeModule span name entries s = .ok code t)
    (orderly : Orderly s) : Advances few s t ∧ code.Leads (Small few t.table) exits := by
  obtain ⟨index, u, supplies, rfl, rfl⟩ := nativeModule_eq run
  obtain ⟨advances, known⟩ : Advances few s u ∧
      ∃ value, u.constants[index]? = some value ∧ value.isData = true := by
    cases supplies with
    | again known => exact ⟨.refl orderly, orderly.native (mem_of_lookup known)⟩
    | first _ added =>
      have makes : Advances few s { s with heap := (s.heap.newMap entries).2 } :=
        orderly.beside s.files s.imported _
      obtain ⟨adds, constant, -⟩ := advances_addConstant few added makes.orderly fun _ =>
          Value.noConfusion
      refine ⟨(makes.trans adds).trans ⟨{ adds.orderly with native := fun member => ?_ }, .refl _,
        id, .inl, fun listed => { listed with }⟩, _, constant, rfl⟩
      rcases List.mem_cons.1 member with same | old
      · cases same
        exact ⟨_, constant, rfl⟩
      · exact adds.orderly.native old
  refine ⟨advances.trans (advances.orderly.beside u.files _ u.heap.maps), .one rfl fun _ => ?_⟩
  obtain ⟨value, here, -⟩ := known
  have inside := (Array.getElem?_eq_some_iff.1 here).1
  exact Opcode.fits_two rfl (Nat.le_of_lt_succ (Nat.lt_of_lt_of_le inside advances.orderly.few))

/-- A text whose calls have few named arguments, however it is numbered. -/
def FewNamedIn (text : String) : Prop :=
  ∀ file script, Script.parse text file = .ok script → script.All FewNamed

/-- The modules that a program may import have calls with few named arguments. -/
structure ImportsFew (modules : ModuleMap) (files : Option FileImports) : Prop where
  source {name text : String} : modules.get? name = some (.source text) → FewNamedIn text
  file {found : FileImports} {path text : String} :
    files = some found → found.read path = .ok text → FewNamedIn text

theorem importsFew_empty : ImportsFew .empty none :=
  ⟨fun found => by simp [Dict.get?, Dict.find?, Dict.empty] at found, nofun⟩

/-- The functions of modules are made from bodies that lead to their end, and capture nothing. -/
theorem leading_modular (few : Prop) (modules : ModuleMap) :
    (leading few).Modular (leading few) modules fun s _ value =>
      ∃ emission ∈ s.emitted, emission.captured = 0 ∧ value = .function emission.function where
  any := id
  reads {s _} files orderly := orderly.beside files s.imported s.heap.maps
  makes {s _} orderly := by
    obtain ⟨roomy, alone⟩ := roomy_moduleTable orderly.roomy
    refine ⟨(), orderly.withTable roomy, fun {_ body v _ _ _ _} advances leads locals made => ?_⟩
    obtain ⟨isFunction, captured⟩ := table_module advances.orderly.roomy advances.table alone
    have back : Advances few s { v with table := s.table } :=
      advances.withTable orderly.roomy (.refl _)
    have leads : body.Leads few False :=
      (leads.closed Bool.false_ne_true).mono
        (small_function isFunction locals (captured ▸ Nat.zero_le _))
    obtain ⟨makes, emission⟩ := advances_newFunction made back.orderly ⟨_, rfl⟩ leads
    exact ⟨(), back.trans makes, emission⟩
  known orderly member := orderly.compiled member
  keeps path orderly emission := by
    refine ⟨{ orderly with compiled := fun member => ?_ }, .refl _, id, .inl,
      fun listed => ⟨listed.constants, fun member => ?_⟩⟩
    · rcases mem_cons.1 member with same | old
      · cases same
        exact emission
      · exact orderly.compiled old
    · obtain ⟨emission, known, -, rfl⟩ := emission
      rcases mem_cons.1 member with same | old
      · cases same
        exact ⟨emission, known, rfl⟩
      · exact listed.compiled old
  calls path exits orderly := by
    rintro ⟨emission, member, -, rfl⟩ added
    obtain ⟨adds, -, room⟩ := advances_addConstant few added orderly
      (by rintro ref ⟨⟩; exact ⟨emission, member, rfl⟩)
    exact ⟨adds.trans (adds.orderly.beside _ _ _),
      .append (.one rfl fun _ => Opcode.fits_two rfl room) (.one rfl fun _ => rfl)⟩
  native _ _ run orderly := ⟨(), leads_nativeModule run orderly⟩

theorem leading_fulfils (few : Prop) (modules : ModuleMap) :
    (leading few).Fulfils modules fun files => few → ImportsFew modules files := by
  refine ⟨fun short target => ?_⟩
  have texts (few : few) := texts (short few).source (short few).file target
  exact ⟨fun few => ⟨(short few).source, (texts few).2⟩, fun _ _ parsed few =>
    (texts few).1 _ _ parsed⟩

/-! ## Programs -/

/-- A program that has been compiled: the code of its statements, and what its main function is made
from. -/
structure Compiled (few : Prop) (s : CompileState) (program : Program) (body : Fragment)
    (t : CompileState) : Prop where
  main : t.heap.functions[program.main]? = some
    { code := (Opcode.suspend.encode []).foldl ByteArray.push body.assemble.1,
      map := body.assemble.2 }
  constants : program.constants = t.constants
  emitted : ∀ emission ∈ t.emitted, emission ∈ s.emitted ∨
    emission = { function := program.main, body } ∨
      emission.function < program.main ∧ ∃ function, emission.Sound t few function
  listed : { function := program.main, body } ∈ t.emitted
  leads : body.Leads few False
  known : Listed s → Listed t

/-- Outside of functions there are no slots. -/
theorem small_outside (roomy : table.Roomy) (outside : table.inFunction = false) (named : few) :
    Small few table := by
  rw [Small, localsOf_outside outside, cellsOf_outside roomy.sound outside]
  exact ⟨Nat.zero_le _, Nat.zero_le _, named⟩

theorem compiled_program (few : Prop) (run : Compile.program imports script s = .ok program t)
    (orderly : Orderly s) (outside : s.table.inFunction = false) (short : few → script.All FewNamed)
    (modules : few → ImportsFew imports.modules imports.files) :
      ∃ body, Compiled few s program body t := by
  obtain ⟨body, u, compiled, rfl, rfl⟩ := program_eq run
  obtain ⟨_, advances, leads⟩ := Pass.code_stmts ((leading_modular few _).import_all
    (leading_fulfils few _) _ modules _) short compiled (w := ()) orderly
  refine ⟨body, Array.getElem?_push_size, rfl, ?_, mem_cons_self .., ?_, fun listed => ?_⟩
  · intro emission member
    rcases mem_cons.1 member with rfl | earlier
    · exact .inr (.inl rfl)
    · rcases advances.sound earlier with old | ⟨function, sound⟩
      · exact .inl old
      · have before : emission.function < u.heap.functions.size :=
          (Array.getElem?_eq_some_iff.1 sound.made).1
        exact .inr (.inr ⟨before, function, getElem?_push_of_found sound.made, sound.code,
          sound.leads⟩)
  · refine (leads.closed Bool.false_ne_true).mono ?_
    exact small_outside advances.orderly.roomy (advances.table.inFunction.trans outside)
  · obtain ⟨constants, compiled⟩ := advances.listed listed
    have more {ref : Nat} : (∃ emission ∈ u.emitted, emission.function = ref) →
        ∃ other ∈ { function := u.heap.functions.size, body } :: u.emitted,
          other.function = ref := by
      rintro ⟨other, member, same⟩
      exact ⟨other, mem_cons_of_mem _ member, same⟩
    exact ⟨more ∘ constants, more ∘ compiled⟩

end Compile

end Skiff
