import Skiff.Proofs.Compile.Modules

/-!
# Operands are kept

The instructions of a compiled program have the operands that they were given: none is cut to the
width of its field. The one exception is the map of the named arguments of a call, whose entries
nobody counts.
-/

namespace Skiff

open List Fragment

open SymbolTable (Ledger)

namespace Fragment

variable {body : Fragment}

/-- The instructions of a body at their places, with the operands that they were given. -/
def instrs (body : Fragment) : List PlacedInstr :=
  (placesFrom 0 body.toList).map fun placed => instrAt placed.1 placed.2

theorem decode_assemble (fits : body.fits = true) :
    (decode body.assemble.1).toList = body.instrs := by
  rw [decode_of_spells (spells_assemble fits), placeFrom_placedFrom]
  rfl

theorem sum_placedFrom (place : Nat) (pieces : List CodePiece) :
    ((placedFrom place pieces).map (·.1.size)).sum = sizeOf pieces := by
  induction pieces generalizing place with
  | nil => rfl
  | cons piece pieces ih =>
    have rest := ih (place + piece.item.size)
    have size := CodeItem.size_placed place piece.item
    simp only [placedFrom, placesFrom, map_cons, sum_cons, sizeOf_cons] at rest ⊢
    rw [rest, size]

/-- The main function is suspended at its end. -/
theorem decode_suspended (fits : body.fits = true) :
    (decode ((Opcode.suspend.encode []).foldl ByteArray.push body.assemble.1)).toList
      = body.instrs ++ [⟨body.byteSize, .suspend, []⟩] := by
  have bytes : ((Opcode.suspend.encode []).foldl ByteArray.push body.assemble.1).data.toList
      = encodeAll (placedFrom 0 body.toList ++ [(.suspend, [])]) := by
    rw [toList_foldl_push, toList_assemble fits, encodeAll, encodeAll, flatMap_append]
    rfl
  have spelled : Spells ((Opcode.suspend.encode []).foldl ByteArray.push body.assemble.1) 0
      (placeFrom 0 (placedFrom 0 body.toList ++ [(.suspend, [])])) := by
    apply spells_encodeAll _ (Nat.zero_le _) bytes
    intro instr member
    rcases mem_append.1 member with inside | last
    · obtain ⟨⟨place, piece⟩, placed, rfl⟩ := mem_map.1 inside
      exact CodeItem.fits_placed ((fits_iff body).1 fits place piece placed)
    · obtain rfl := mem_singleton.1 last
      exact (Opcode.fits_iff .suspend []).1 rfl
  rw [decode_of_spells spelled, placeFrom_append, sum_placedFrom, placeFrom_placedFrom, byteSize_eq,
    Nat.zero_add]
  rfl

end Fragment

/-- The instructions of the code of a function: those that it was made from, which are tidied unless
they are those of the main function. -/
def Emission.instrs (emission : Emission) (main : Nat) : List PlacedInstr :=
  if emission.function = main then emission.body.instrs ++ [⟨emission.body.byteSize, .suspend, []⟩]
  else placeFrom 0 (tidiedInstrs emission.body.assemble.1)

namespace Compile

variable {s t : CompileState}

/-! ## Programs -/

/-- A state in which a program can be compiled. -/
structure Ready (state : CompileState) : Prop where
  tracks : ∃ ledger, Tracks state ledger
  outside : state.table.inFunction = false
  listed : Listed state

theorem ready_withBuiltins (files : FileSet) (heap : Heap) :
    Ready { files, heap, table := .withBuiltins } := by
  obtain ⟨keeps, outside, -⟩ := SymbolTable.onlyBuiltins_withBuiltins
  exact ⟨⟨{}, keeps, Nat.zero_le _, nofun, nofun⟩, outside, ⟨fun here => by simp at here, nofun⟩⟩

/-- No operand is cut. Every function of a compiled program is listed with the body it was made
from, and if the body is shorter than four gigabytes, then all of its operands fit, its code decodes
to the instructions of the body, and the operands of these are the ones they were given. -/
theorem operands_kept {imports : Imports} {script : Script} {program : Program}
    (run : Compile.program imports script s = .ok program t) (ready : Ready s)
    (few : script.All FewNamed) (modules : ImportsFew imports.modules imports.files) :
    (∀ ref, ref = program.main ∨ .function ref ∈ program.constants →
      ∃ emission ∈ t.emitted, emission.function = ref) ∧
    ∀ emission ∈ t.emitted, emission ∉ s.emitted → emission.body.byteSize < 2 ^ 32 →
      emission.body.fits = true ∧ (decode emission.body.assemble.1).toList = emission.body.instrs ∧
      ∃ function, t.heap.functions[emission.function]? = some function ∧
        (decode function.code).toList = emission.instrs program.main := by
  obtain ⟨⟨ledger, tracks⟩, outside, listed⟩ := ready
  obtain ⟨body, compiled⟩ := compiled_program True run tracks.orderly outside (fun _ => few)
      fun _ => modules
  refine ⟨?_, fun emission member new small => ?_⟩
  · rintro ref (rfl | member)
    · exact ⟨_, compiled.listed, rfl⟩
    · rw [compiled.constants] at member
      obtain ⟨index, here⟩ := Array.mem_iff_getElem?.1 member
      exact (compiled.known listed).constants here
  · rcases (compiled.emitted emission member).resolve_left new with rfl | ⟨before, function, sound⟩
    · have fits := compiled.leads.fits trivial small
      refine ⟨fits, decode_assemble fits, _, compiled.main, ?_⟩
      rw [Emission.instrs, if_pos rfl]
      exact decode_suspended fits
    · have fits := sound.leads.fits trivial small
      refine ⟨fits, decode_assemble fits, function, sound.made, ?_⟩
      obtain ⟨span, code⟩ := sound.code
      rw [Emission.instrs, if_neg (Nat.ne_of_lt before), (Prod.mk.inj code).1]
      exact decode_tidy (decodesFully_of_spells (spells_assemble fits))
        (sound.leads.jumpsInside fits) _ span

end Compile

/-! ## Many named arguments -/

namespace SymbolTable

theorem exists_withBuiltins {builtin : Builtin} (member : builtin ∈ Builtin.all) :
    ∃ id, withBuiltins.current.names[builtin.name]? = some id := by
  have general (list : List (Builtin × Nat)) (table : SymbolTable)
      (known : builtin ∈ list.map (·.1) ∨ ∃ id, table.current.names[builtin.name]? = some id) :
      ∃ id, (list.foldl (fun (table : SymbolTable) pair =>
        (table.defineBuiltin pair.2 pair.1.name).1) table).current.names[builtin.name]?
          = some id := by
    induction list generalizing table with
    | nil => exact known.resolve_left not_mem_nil
    | cons pair rest ih =>
      apply ih
      have names : (table.defineBuiltin pair.2 pair.1.name).1.current.names
          = table.current.names.insert pair.1.name table.symbols.size := rfl
      rw [names, Std.HashMap.getElem?_insert]
      rcases known with here | ⟨id, before⟩
      · rcases mem_cons.1 here with rfl | later
        · exact .inr ⟨_, if_pos (beq_self_eq_true _)⟩
        · exact .inl later
      · right
        split
        · exact ⟨_, rfl⟩
        · exact ⟨id, before⟩
  apply general
  left
  rw [zipIdx_map_fst]
  exact member

/-- Builtins are found at once. -/
theorem resolve_withBuiltins {builtin : Builtin} (member : builtin ∈ Builtin.all) :
    ∃ id index, withBuiltins.resolve builtin.name false = (withBuiltins, some (id, 0)) ∧
      slotOf? withBuiltins.symbols id = some (.builtin, index) := by
  obtain ⟨id, here⟩ := exists_withBuiltins member
  obtain ⟨keeps, -, builtins⟩ := onlyBuiltins_withBuiltins
  obtain ⟨symbol, made, -⟩ := keeps.sound.1.bound here
  have slot := slotOf?_of_made made
  have isBuiltin : symbol.storage = .builtin := builtins slot
  rw [isBuiltin] at slot
  refine ⟨id, symbol.index, ?_, slot⟩
  have seen : visible (withBuiltins.symbols.getD id default) false = true := by
    rw [getD_of_made made, visible, isBuiltin]
    rfl
  have found : resolveIn builtin.name withBuiltins.symbols withBuiltins.chain false
      = some { id, depth := 0, scopes := withBuiltins.chain, symbols := withBuiltins.symbols } := by
    rw [chain, resolveIn, here, Option.filter_some, if_pos seen]
  rw [resolve, found]
  rfl

end SymbolTable

namespace Compile

theorem name_withBuiltins {builtin : Builtin} (member : builtin ∈ Builtin.all) (span : Span)
    {s : CompileState} (table : s.table = .withBuiltins) :
    ∃ index, name span builtin.name s = .ok (.instr span .getBuiltin [index]) s := by
  obtain ⟨id, index, found, slot⟩ := SymbolTable.resolve_withBuiltins member
  have resolved : resolve builtin.name s = .ok (some (id, 0)) s := by
    change EStateM.Result.ok (s.table.resolve builtin.name false).2
      { s with table := (s.table.resolve builtin.name false).1 } = _
    rw [table, found, ← table]
  obtain ⟨isBuiltin, same⟩ := symbol_of_slot slot
  rw [← table] at isBuiltin same
  refine ⟨index, ?_⟩
  rw [name, bind_ok resolved]
  have checked : checkSlot span (s.table.symbol id) s = .ok () s := by
    rw [checkSlot, isBuiltin]
    rfl
  change (checkSlot span (s.table.symbol id) >>= _) s = _
  rw [bind_ok checked, isBuiltin, same]
  rfl

/-- A named argument. -/
def trueArg : NamedArg := .mk ⟨"a", {}⟩ (.literal {} (.bool true))

/-- Named arguments are compiled as long as there is room for their names among the constants. -/
theorem namedArgs_replicate (context : CompileContext) (count : Nat) (code : Fragment)
    {s : CompileState} (room : s.constants.size + count ≤ 0x10000) :
    ∃ args t, namedArgs context (replicate count trueArg) code s = .ok (code ++ args) t ∧
      args.byteSize = 4 * count := by
  induction count generalizing code s with
  | zero => exact ⟨#[], s, by rw [Array.append_empty]; rfl, rfl⟩
  | succ count ih =>
    let u : CompileState := { s with constants := s.constants.push (.string "a") }
    have key : constant {} (.string "a") s = .ok (.instr {} .const [s.constants.size]) u := by
      have few : (decide (s.constants.size ≤ 0xFFFF)) = true := decide_eq_true (by omega)
      simp only [constant, addConstant, bind_eq_ok, get_eq_ok, limit_eq_ok, pure_eq_ok]
      exact ⟨_, u, ⟨s, s, ⟨rfl, rfl⟩, (), s, ⟨few, rfl⟩, (), u, rfl, rfl, rfl⟩, rfl, rfl⟩
    have value : expr context (.literal {} (.bool true)) u = .ok (.instr {} .true_ []) u := rfl
    have room' : u.constants.size + count ≤ 0x10000 := by
      simp only [u, Array.size_push]
      omega
    obtain ⟨args, t, rest, size⟩ := ih
      (code ++ instr {} .const [s.constants.size] ++ instr {} .true_ []) room'
    refine ⟨instr {} .const [s.constants.size] ++ instr {} .true_ [] ++ args, t, ?_, ?_⟩
    · change namedArgs context (.mk ⟨"a", {}⟩ (.literal {} (.bool true)) :: replicate count trueArg)
        code s = _
      rw [namedArgs, bind_ok key, bind_ok value]
      simpa only [Array.append_assoc] using rest
    · simp only [Fragment.byteSize_append, Fragment.byteSize_instr, size]
      change 3 + 1 + 4 * count = _
      omega

/-- A call with a number of named arguments. -/
def namedCall (count : Nat) : Script where
  stmts := [.expr {} (.call {} (.name {} "len") (.mk [] false (replicate count trueArg) none))]
  span := {}

/-- Calls are compiled however many named arguments they have. -/
theorem program_namedCall {count : Nat} (some : 0 < count) (room : count ≤ 0x10000) :
    ∃ program t emission, Compile.program {} (namedCall count) { table := .withBuiltins }
      = .ok program t ∧
      emission ∈ t.emitted ∧ emission.function = program.main ∧
        emission.body.byteSize = 4 * count + 9 ∧
      ∃ place span, Fragment.PieceAt emission.body place ⟨.instr .map [count * 2], span⟩ := by
  let s : CompileState := { table := .withBuiltins }
  let context : CompileContext :=
    { inModule := false, importModule := importModule .empty (importDepth {}) none [] }
  obtain ⟨index, callee⟩ := name_withBuiltins (by decide : Builtin.len ∈ Builtin.all) {}
      (Eq.refl s.table)
  have room' : s.constants.size + count ≤ 0x10000 := by simpa [s] using room
  obtain ⟨args, u, named, size⟩ := namedArgs_replicate context count
    (.instr {} .getBuiltin [index]) room'
  have isCons : (replicate count trueArg).isEmpty = false := by
    cases count with
    | zero => exact absurd some (Nat.lt_irrefl 0)
    | succ count => rfl
  let before : Fragment := .instr {} .getBuiltin [index] ++ args
  let behind : Fragment := .instr {} .call [0, namedFlag] ++ instr {} .pop []
  let body : Fragment := before ++ instr {} .map [count * 2] ++ behind
  have called :
      expr context (.call {} (.name {} "len") (.mk [] false (replicate count trueArg) none)) s
      = .ok (before ++ instr {} .map [count * 2] ++ instr {} .call [0, namedFlag]) u := by
    have positional : exprs context [] (.instr {} .getBuiltin [index]) s
        = .ok (.instr {} .getBuiltin [index]) s := rfl
    simp only [expr, bind_eq_ok, limit_eq_ok]
    refine ⟨(), s, ⟨rfl, rfl⟩, _, s, callee, _, s, positional, ?_⟩
    simp only [isCons, Bool.false_eq_true, if_false, bind_eq_ok, pure_eq_ok, optional]
    refine ⟨_, u, named, _, u, ⟨rfl, rfl⟩, _, u, ⟨rfl, rfl⟩, ?_, rfl⟩
    rw [length_replicate, Array.append_empty]
    rfl
  have compiled : stmts context (namedCall count).stmts #[] s = .ok body u := by
    simp only [namedCall, stmts, stmt, bind_eq_ok, pure_eq_ok]
    refine ⟨_, u, ⟨_, u, called, rfl, rfl⟩, ?_, rfl⟩
    rw [Array.empty_append, Array.append_assoc]
  let main : Function :=
    { code := (Opcode.suspend.encode []).foldl ByteArray.push body.assemble.1,
      map := body.assemble.2 }
  let emission : Emission := { function := u.heap.functions.size, body }
  have run : Compile.program {} (namedCall count) s
      = .ok { files := u.files, main := u.heap.functions.size, constants := u.constants }
        { u with heap := (u.heap.newFunction main).2, emitted := emission :: u.emitted } := by
    rw [Compile.program, bind_ok compiled]
    rfl
  refine ⟨_, _, emission, run, mem_cons_self .., rfl, ?_, ?_⟩
  · simp only [emission, body, before, behind, byteSize_append, byteSize_instr, size]
    change 2 + 4 * count + 3 + (3 + 1) = _
    omega
  · refine ⟨before.byteSize, {}, pieceAt_append.2 (.inl (pieceAt_append.2 (.inr
      ⟨0, pieceAt_singleton.2 ⟨rfl, rfl⟩, rfl⟩)))⟩

theorem all_namedCall {count : Nat} (few : count * 2 ≤ 0xFFFF) :
    (namedCall count).All FewNamed := by
  refine ⟨⟨?_, trivial, trivial, Expr.allNamed_iff.2 fun name value member => ?_, trivial⟩, trivial⟩
  · rw [FewNamed, length_replicate]
    exact few
  · cases eq_of_mem_replicate member
    trivial

/-- As many named arguments as can be counted. -/
theorem operands_kept_namedCall :
    ∃ program t emission, Compile.program {} (namedCall 32767) { table := .withBuiltins }
      = .ok program t ∧
      emission ∈ t.emitted ∧ emission.function = program.main ∧ emission.body.fits = true ∧
      ∃ function, t.heap.functions[emission.function]? = some function ∧
        (decode function.code).toList = emission.instrs program.main := by
  obtain ⟨program, t, emission, run, member, isMain, size, -⟩ :=
    program_namedCall (by decide : 0 < 32767) (by decide)
  have kept := operands_kept run (ready_withBuiltins {} {}) (all_namedCall (by decide))
    importsFew_empty
  obtain ⟨fits, -, decodes⟩ := kept.2 emission member not_mem_nil (by rw [size]; decide)
  exact ⟨program, t, emission, run, member, isMain, fits, decodes⟩

/-- One named argument more is compiled as well, but the map of the arguments has lost them all. -/
theorem namedCall_cut :
    ∃ program t emission function,
      Compile.program {} (namedCall 32768) { table := .withBuiltins } = .ok program t ∧
      emission ∈ t.emitted ∧ emission.function = program.main ∧ emission.body.byteSize < 2 ^ 32 ∧
      t.heap.functions[program.main]? = some function ∧ emission.body.fits = false ∧
      (decode function.code).toList ≠ emission.instrs program.main := by
  obtain ⟨program, t, emission, run, member, isMain, size, place, span, here⟩ :=
    program_namedCall (by decide : 0 < 32768) (by decide)
  obtain ⟨⟨ledger, tracks⟩, outside, -⟩ := ready_withBuiltins {} {}
  obtain ⟨body, compiled⟩ := compiled_program False run tracks.orderly outside False.elim False.elim
  refine ⟨program, t, emission, _, run, member, isMain, by rw [size]; decide, compiled.main, ?_, ?_⟩
  · rw [Bool.eq_false_iff]
    intro fits
    cases (Fragment.fits_iff _).1 fits _ _ here
  · intro same
    have inside :
        Fragment.instrAt place ⟨.instr .map [32768 * 2], span⟩ ∈ emission.instrs program.main := by
      rw [Emission.instrs, if_pos isMain]
      exact mem_append_left _ (mem_map.2 ⟨_, here, rfl⟩)
    rw [← same] at inside
    have fits : Opcode.map.Fits [32768 * 2] := fits_of_mem_decode inside
    exact absurd fits (by decide)

end Compile

end Skiff
