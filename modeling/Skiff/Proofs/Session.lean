import Mathlib.Data.List.Induction
import Skiff.Proofs.Budget.Exact
import Skiff.Proofs.Compile.Modules
import Skiff.Session

/-!
# Sessions

A line that is read, but not compiled, is reported with a place in it: every span of its tree and
that of the error have the number of the file that the line has become. Numbers have 16 bits, so
those of later lines lead to earlier ones. Routines go on from line to line, with the constants of
the line that they are from.
-/

namespace Skiff

open List Array Nat

/-- A node and all below it have spans of some kind. -/
inductive Spans (holds : Span → Prop) : Node → Prop where
  | mk {node : Node} (here : holds node.span) (below : ∀ part ∈ node.parts, Spans holds part) :
      Spans holds node

mutual

theorem Placed.spans {layout : Layout} {lo hi : Nat} {node : Node} :
    Placed layout node → node.span.Laid layout lo hi → Spans (Span.Laid layout lo hi) node
  | .mk _ row, laid => .mk laid (row.spans laid.after laid.before)

theorem Row.spans {layout : Layout} {lo lo' hi hi' : Nat} {nodes : List Node} :
    Row layout lo' hi' nodes → lo ≤ lo' → hi' ≤ hi → ∀ node ∈ nodes,
      Spans (Span.Laid layout lo hi) node
  | .nil _, _, _ => nofun
  | .cons laid placed rest, low, high => by
    rw [forall_mem_cons]
    exact ⟨placed.spans (laid.widen low (le_trans rest.le high)),
      rest.spans (le_trans low laid.le) high⟩

end

namespace Compile

variable {blame : Span → Prop}

/-- Errors are about spans of the tree that is compiled. -/
def blames (blame : Span → Prop) : Pass where
  World := Unit
  ok _ _ := True
  step _ _ _ _ _ := True
  blame
  may := Spans blame
  fails _ _ error := blame error.span

instance : (blames blame).Laws where
  ok _ := trivial
  refl _ := trivial
  trans _ _ := trivial
  define _ _ := ⟨(), trivial, trivial⟩
  defineHidden _ _ := ⟨(), trivial, trivial⟩
  resolve _ _ := ⟨trivial, fun _ _ _ => trivial⟩
  markAssigned _ _ := trivial
  constant _ _ _ _ := ⟨trivial, trivial⟩
  enter _ _ := trivial
  leave _ _ := trivial
  function _ _ _ _ _ _ _ _ := ⟨(), trivial, trivial⟩
  here
    | .mk here _ => here
  below
    | .mk _ below, member => below _ member
  faults _ known := known
  early := id
  late _ := id

theorem blames_importModule {span : Span} (known : blame span) (fuel : Nat) (name : String) :
    Blames blame (importModule .empty fuel none [] span name) := by
  have missing : (.empty : ModuleMap).get? name = none := by
    simp [Dict.get?, Dict.find?, Dict.empty]
  unfold importModule
  refine (Blames.limit known rfl).bind fun _ => ?_
  rw [missing]
  exact .fail known rfl

/-- Without modules, a script is blamed at one of its spans. -/
theorem blame_of_program {script : Script} {s t : CompileState} {error : CompileError}
    (spans : ∀ stmt ∈ script.stmts, Spans blame (.stmt stmt))
    (run : program {} script s = .error error t) : blame error.span := by
  rw [program, bind_eq_error] at run
  obtain failed | ⟨_, _, -, run⟩ := run
  · have same : Meets (fun span path => fail (.cyclicImport path) span) (blames blame)
        { inModule := false, importModule := importModule .empty 0 none [] }
        { inModule := false, importModule := importModule .empty 0 none [] } := by
      refine ⟨rfl, rfl, rfl, fun known name _ => ⟨fun _ run _ _ => ⟨run, (), trivial, trivial⟩,
        fun {s error t _} _ run _ _ => ?_⟩⟩
      rw [run]
      exact ⟨.refl error t, ((blames_importModule known 0 name).failed run).2⟩
    have all : Yields _ (blames blame) _ [] _ _ _ :=
      yields_stmts same script.stmts #[] spans False.elim fun _ => trivial
    exact (all.failed (w := ()) (fun _ _ => trivial) failed trivial trivial).2
  · cases run

end Compile

namespace Session

theorem spans_shownStmt {holds : Span → Prop} {stmt : Stmt} (spans : Spans holds (.stmt stmt)) :
    Spans holds (.stmt (shownStmt stmt)) := by
  cases stmt with
  | expr span value =>
    obtain ⟨here, below⟩ := spans
    have inner : Spans holds (.expr value) := below _ (mem_cons_self ..)
    have known : holds value.span := by
      obtain ⟨here, -⟩ := inner
      exact here
    refine .mk here (forall_mem_singleton.2 (.mk known (forall_mem_cons.2 ⟨?_, ?_⟩)))
    · exact .mk known (forall_mem_nil _)
    · exact forall_mem_singleton.2 inner
  | _ => exact spans

/-- The session behind some lines. -/
def behind (fuel : Nat) (lines : List String) : Session :=
  lines.foldl (fun session line => (session.eval fuel line).1) start

theorem behind_concat (fuel : Nat) (before : List String) (line : String) :
    behind fuel (before ++ [line]) = ((behind fuel before).eval fuel line).1 := by
  rw [behind, List.foldl_append]
  rfl

/-- What a line becomes in a session. -/
def fileOf (number : Nat) (line : String) : SourceFile := .ofText s!"repl:{number + 1}" line

theorem eval_files (session : Session) (fuel : Nat) (line : String) :
    (session.eval fuel line).1.lines = session.lines + 1 ∧
      (session.eval fuel line).1.files.files = session.files.files.push
        (fileOf session.lines line) := by
  unfold eval
  dsimp only
  split
  · exact ⟨rfl, rfl⟩
  · split
    · exact ⟨rfl, rfl⟩
    · exact ⟨rfl, rfl⟩

theorem behind_files (fuel : Nat) (lines : List String) :
    (behind fuel lines).lines = lines.length ∧ (behind fuel lines).files.files.size = lines.length ∧
      ∀ number, (behind fuel lines).files.files[number]? = lines[number]?.map (fileOf number) := by
  induction lines using reverseRecOn with
  | nil => exact ⟨rfl, rfl, fun _ => rfl⟩
  | append_singleton lines line ih =>
    obtain ⟨count, size, files⟩ := ih
    obtain ⟨count', files'⟩ := (behind fuel lines).eval_files fuel line
    rw [behind_concat, count', files', count, length_append, size_push, size]
    refine ⟨rfl, rfl, fun number => ?_⟩
    rw [getElem?_push, size, files]
    by_cases last : number = lines.length
    · rw [if_pos last, last, getElem?_concat_length]
      rfl
    · rw [if_neg last]
      by_cases earlier : number < lines.length
      · rw [List.getElem?_append_left earlier]
      · rw [List.getElem?_eq_none (not_lt.1 earlier), List.getElem?_eq_none]
        rw [List.length_append, List.length_singleton]
        omega

/-- A line that is read as a script and not compiled because of an error. -/
structure Rejects (session : Session) (line : String) (script : Script) (error : CompileError) :
    Prop where
  parsed : Script.parse line (UInt16.ofNat session.files.size) = .ok script
  failed : ∃ state, Compile.program {} { script with stmts := script.stmts.map shownStmt }
    { session.state with
      files := (session.files.add s!"repl:{session.lines + 1}" line).1
      compiled := [], native := [] }
    = .error error state

variable {line : String} {script : Script} {error : CompileError}

/-- A rejected line is shown with the position of the error. -/
theorem Rejects.shown {session : Session} {fuel : Nat}
    (rejects : session.Rejects line script error) :
    (session.eval fuel line).2 = { errors := error.render (session.eval fuel line).1.files ++
      "\n" } := by
  obtain ⟨state, failed⟩ := rejects.failed
  have parsed :
      Script.parse line (session.files.add s!"repl:{session.lines + 1}" line).2 = .ok script :=
    rejects.parsed
  unfold eval
  dsimp only
  rw [parsed]
  dsimp only
  rw [failed]
  rfl

/-- The spans of a rejected line are in the line. -/
theorem Rejects.laid {session : Session} (rejects : session.Rejects line script error) :
    ∃ hi, Row (.ofText line (UInt16.ofNat session.files.size)) 0 hi (script.stmts.map .stmt) ∧
      error.span.Laid (.ofText line (UInt16.ofNat session.files.size)) 0 hi := by
  obtain ⟨-, hi, row⟩ := Script.of_parse rejects.parsed
  obtain ⟨state, failed⟩ := rejects.failed
  refine ⟨hi, row, Compile.blame_of_program (List.forall_mem_map.2 fun stmt member => ?_) failed⟩
  exact spans_shownStmt (row.spans (le_refl _) (le_refl _) _ (List.mem_map_of_mem member))

/-- There is a file for every number of a line, that of the line itself or, with more lines than
numbers, that of an earlier line. -/
theorem file?_behind (fuel : Nat) (before : List String) (line : String) :
    ∃ text, (before ++ [line])[before.length % 0x10000]? = some text ∧
      (behind fuel (before ++ [line])).files.file? (UInt16.ofNat before.length)
        = some (fileOf (before.length % 0x10000) text) := by
  have inside : before.length % 0x10000 < (before ++ [line]).length := by
    have := mod_le before.length 0x10000
    rw [length_append, length_singleton]
    omega
  refine ⟨_, List.getElem?_eq_getElem inside, ?_⟩
  rw [FileSet.file?, (behind_files fuel _).2.2, UInt16.toNat_ofNat',
    List.getElem?_eq_getElem inside]
  rfl

/-- A line that is read, but not compiled, is reported with its own name and a place in its text,
unless there have been more lines than there are numbers for files. Whatever line it is, all spans
of its tree and that of the error are in its text and have its number. -/
theorem rejected_named_iff (fuel : Nat) (before : List String)
    (rejects : (behind fuel before).Rejects line script error) :
    let layout := Layout.ofText line (UInt16.ofNat before.length)
    let shown := (behind fuel before).eval fuel line
    let position := shown.1.files.position error.span
    (∃ hi, Row layout 0 hi (script.stmts.map .stmt) ∧ error.span.Laid layout 0 hi) ∧
      shown.2 = { errors := error.render shown.1.files ++ "\n" } ∧
      (position.file = s!"repl:{before.length + 1}" ↔ before.length < 0x10000) ∧
      (before.length < 0x10000 →
        shown.1.files.file? layout.file = some (fileOf before.length line) ∧
          position.isKnown = true ∧ (position.line, position.column)
            = (fileOf before.length line).lineColumn error.span.start) := by
  intro layout shown position
  have size : (behind fuel before).files.size = before.length := (behind_files fuel before).2.1
  obtain ⟨hi, row, laid⟩ := rejects.laid
  rw [size] at row laid
  refine ⟨⟨hi, row, laid⟩, rejects.shown, ?_⟩
  obtain ⟨text, here, found⟩ := file?_behind fuel before line
  have found : shown.1.files.file? error.span.file = some
      (fileOf (before.length % 0x10000) text) := by
    rw [laid.file, ← found, behind_concat]
    rfl
  by_cases few : before.length < 0x10000
  · rw [mod_eq_of_lt few, getElem?_concat_length] at here
    rw [mod_eq_of_lt few, ← Option.some.inj here] at found
    obtain ⟨start, rest, split, starts⟩ := laid.start
    have inside : error.span.start ≤ line.utf8ByteSize := by
      rw [starts, utf8ByteSize_eq, split, byteLength_append]
      exact le_add_right _ _
    have placed : position = ⟨s!"repl:{before.length + 1}",
        ((fileOf before.length line).lineColumn error.span.start).1,
        ((fileOf before.length line).lineColumn error.span.start).2⟩ := by
      change FileSet.position _ _ = _
      unfold FileSet.position
      rw [found]
      exact if_pos inside
    rw [placed]
    refine ⟨iff_of_true rfl few, fun _ => ⟨laid.file ▸ found, ?_, rfl⟩⟩
    exact decide_eq_true (succ_pos _)
  · refine ⟨iff_of_false (fun same => ?_) few, fun less => absurd less few⟩
    have other : position.file = s!"repl:{before.length % 0x10000 + 1}" ∨ position.file = "" := by
      change (FileSet.position _ _).file = _ ∨ (FileSet.position _ _).file = _
      unfold FileSet.position
      rw [found]
      dsimp only
      split
      · exact .inl rfl
      · exact .inr rfl
    rw [same] at other
    obtain earlier | none := other
    · have earlier : before.length = before.length % 0x10000 := by simpa using earlier
      have := mod_lt before.length (by decide : 0 < 0x10000)
      omega
    · simp at none

/-- There is no loop that a line could leave. -/
theorem rejects_break (session : Session) :
    session.Rejects "break" ⟨[.leave ⟨0, 5, UInt16.ofNat session.files.size⟩],
        ⟨0, 5, UInt16.ofNat session.files.size⟩⟩
      ⟨.breakOutsideLoop, ⟨0, 5, UInt16.ofNat session.files.size⟩⟩ := by
  have parsed (file : UInt16) :
      Script.parse "break" file = .ok ⟨[.leave ⟨0, 5, file⟩], ⟨0, 5, file⟩⟩ := by
    cbv
  exact ⟨parsed _, _, rfl⟩

theorem rejected_named_iff_second :
    ∃ script error, (behind 9 ["n := 1"]).Rejects "break" script error ∧
      (((behind 9 ["n := 1"]).eval 9 "break").1.files.position error.span).file = "repl:2" :=
  ⟨_, _, rejects_break _, ((rejected_named_iff 9 ["n := 1"] (rejects_break _)).2.2.1).2 (by decide)⟩

/-- Behind as many lines as there are numbers for files, a line is reported as the first one. -/
theorem rejected_named_first :
    ((behind 9 (List.replicate 0x10000 "\x7d")).eval 9 "break").2.errors
      = "Compile Error: break not allowed outside loop\n\tat repl:1:1:1\n" := by
  obtain ⟨before, same⟩ : ∃ before, before = List.replicate 0x10000 "\x7d" := ⟨_, rfl⟩
  have many : before.length = 0x10000 := by rw [same, List.length_replicate]
  have first : before[0]? = some "\x7d" := by
    rw [same, List.getElem?_replicate]
    exact if_pos (by decide)
  rw [← same]
  obtain ⟨text, here, found⟩ := file?_behind 9 before "break"
  rw [many] at here found
  rw [List.getElem?_append_left (by rw [many]; decide)] at here
  cases first.symm.trans here
  have size : (behind 9 before).files.size = 0x10000 := (behind_files 9 before).2.1.trans many
  have rejects := rejects_break (behind 9 before)
  rw [size] at rejects
  have position : ((behind 9 before).eval 9 "break").1.files.position ⟨0, 5, UInt16.ofNat 0x10000⟩
      = ⟨"repl:1", 1, 1⟩ := by
    rw [← behind_concat, FileSet.position, found]
    decide +kernel
  rw [rejects.shown, CompileError.render, position]
  decide +kernel

/-! ## Routines -/

variable {index : Nat} {task : Task}

theorem eval_tasks {session : Session} (fuel : Nat) (line : String)
    (found : session.world.tasks[index]? = some task) :
    ∃ later, (session.eval fuel line).1.world.tasks[index]? = some later ∧ task.Keeps later := by
  unfold eval
  dsimp only
  split
  · exact ⟨task, found, .refl task⟩
  · split
    · exact ⟨task, found, .refl task⟩
    · exact Machine.run_tasks fuel ((congrArg (·[index]?) (Machine.freshBudget_tasks _)).trans found)

theorem behind_tasks {fuel : Nat} {before : List String} (lines : List String)
    (found : (behind fuel before).world.tasks[index]? = some task) :
    ∃ later, (behind fuel (before ++ lines)).world.tasks[index]? = some later ∧
      task.Keeps later := by
  induction lines using reverseRecOn with
  | nil => exact ⟨task, by rwa [append_nil], .refl task⟩
  | append_singleton lines line ih =>
    obtain ⟨later, here, keeps⟩ := ih
    obtain ⟨last, here, keeps'⟩ := eval_tasks fuel line here
    rw [← List.append_assoc, behind_concat]
    exact ⟨last, here, keeps.trans keeps'⟩

/-- A routine has the constants of the line that has spawned it, whatever lines come later, until it
is done. So it fails in a function of a later line where that takes a constant of its own. -/
theorem routine_constants {fuel : Nat} {before : List String} (lines : List String)
    (found : (behind fuel before).world.tasks[index]? = some task) :
    ∃ later, (behind fuel (before ++ lines)).world.tasks[index]? = some later ∧
      (later.state = .done ∨ ∀ heap world depth constant next,
        world.tokens.isCancelled later.thread.token = false →
        fetchCode? later.thread.code later.thread.ip = some (⟨.const, constant, 0⟩, next) →
        task.thread.program.constants.size ≤ constant →
        Exec.step depth ⟨later.thread, heap, world⟩
          = .error (.constantIndex constant) ⟨later.thread.moveTo next, heap, world⟩) := by
  obtain ⟨later, here, keeps⟩ := behind_tasks lines found
  refine ⟨later, here, keeps.imp_right fun both heap world depth constant next goes fetched few =>
    (Exec.step_eq goes fetched).trans (bind_error ?_)⟩
  have missing : later.thread.program.constants[constant]? = none := by
    rw [both.2, Array.getElem?_eq_none few]
  rw [Exec.constant, get_bind]
  simp only [Machine.mapThread, Thread.moveTo, missing]
  rfl

end Session

end Skiff
