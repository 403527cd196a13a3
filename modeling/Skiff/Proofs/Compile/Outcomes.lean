import Skiff.Proofs.Compile.Steps

/-!
# Errors of compilations

Single steps fail at spans of what is compiled, and never because of a cyclic import. Where a
compilation stops at a cyclic import, another one, which is the same up to there, may go on.
-/

namespace Skiff

/-- The module that is imported while it is being compiled, if that is the error. -/
def CompileFault.cycle? : CompileFault → Option String
  | .cyclicImport path => some path
  | _ => none

variable {fault : CompileFault} {path : String}

theorem CompileFault.eq_of_cycle? (cycle : fault.cycle? = some path) :
    fault = .cyclicImport path := by
  cases fault <;> cases cycle
  rfl

namespace Compile

variable {α β : Type} {action action' : Compile α} {next next' : α → Compile β}
  {s t u : CompileState}
  {blame : Span → Prop} {span : Span} {error : CompileError} {value : Value} {target : Expr}

/-! ## Steps that import nothing -/

/-- Errors are about certain spans, and no cyclic imports. -/
structure Blames (blame : Span → Prop) (action : Compile α) : Prop where
  failed {s : CompileState} {error : CompileError} {t : CompileState} : action s = .error error t →
    error.fault.cycle? = none ∧ blame error.span

namespace Blames

theorem pure {value : α} : Blames blame (pure value : Compile α) := ⟨fun run => by cases run⟩

theorem bind (first : Blames blame action) (rest : ∀ value, Blames blame (next value)) :
    Blames blame (action >>= next) := by
  refine ⟨fun run => ?_⟩
  rw [bind_eq_error] at run
  obtain failed | ⟨between, u, -, failed⟩ := run
  · exact first.failed failed
  · exact (rest between).failed failed

theorem fail (known : blame span) (acyclic : fault.cycle? = none) :
    Blames blame (Compile.fail fault span : Compile α) := by
  refine ⟨fun run => ?_⟩
  cases run
  exact ⟨acyclic, known⟩

theorem limit (known : blame span) {holds : Bool} (acyclic : fault.cycle? = none) :
    Blames blame (Compile.limit holds fault span) := by
  unfold Compile.limit
  cases holds with
  | true => exact pure
  | false => exact fail known acyclic

theorem modifyGet {change : CompileState → α × CompileState} :
    Blames blame (modifyGet change : Compile α) :=
  ⟨fun run => by cases run⟩

theorem get : Blames blame (get : Compile CompileState) := ⟨fun run => by cases run⟩

end Blames

theorem blames_symbol (id : Nat) : Blames blame (symbol id) := Blames.get.bind fun _ => .pure

section
variable (known : blame span)
include known

theorem blames_addConstant (value : Value) : Blames blame (addConstant span value) :=
  Blames.get.bind fun _ => (Blames.limit known rfl).bind fun _ =>
    Blames.modifyGet.bind fun _ => .pure

theorem blames_constant (value : Value) : Blames blame (constant span value) :=
  (blames_addConstant known value).bind fun _ => .pure

theorem blames_checkSlot (symbol : Symbol) : Blames blame (checkSlot span symbol) := by
  unfold checkSlot
  cases symbol.storage with
  | builtin => exact .pure
  | _ => exact .limit known rfl

theorem blames_load (id : Nat) : Blames blame (load span id) :=
  (blames_symbol id).bind fun symbol => (blames_checkSlot known symbol).bind fun _ => .pure

theorem blames_storeNew (id : Nat) : Blames blame (storeNew span id) := by
  refine (blames_symbol id).bind fun symbol => (blames_checkSlot known symbol).bind fun _ => ?_
  split
  · exact .pure
  · exact Blames.modifyGet.bind fun _ => .pure

theorem blames_store (known' : blame target.span) (op : AssignOp) (id selectors : Nat) :
    Blames blame (store span target op id selectors) := by
  refine (blames_symbol id).bind fun symbol => (blames_checkSlot known symbol).bind fun _ => ?_
  dsimp only
  split
  · split <;> exact .pure
  · refine Blames.modifyGet.bind fun _ => ?_
    split
    · exact .pure
    · split <;> exact .pure
  · split <;> exact .pure
  · exact .fail known' rfl

end

theorem blames_captureCells (captured : List Nat) : Blames blame (captureCells span captured) := by
  induction captured with
  | nil => exact .pure
  | cons id rest ih =>
    refine Blames.bind ((blames_symbol id).bind fun symbol => ?_) fun _ => ih.bind fun _ => .pure
    split
    · exact Blames.modifyGet.bind fun _ => .pure
    all_goals exact .pure

theorem blames_defineParams (params : List Ident) : Blames blame (defineParams params) := by
  induction params with
  | nil => exact .pure
  | cons param rest ih => exact Blames.modifyGet.bind fun id => Blames.modifyGet.bind fun _ => ih

/-! ## Compilations side by side -/

/-- How another compilation goes on where one ends with an error: it ends with the same one, or, at
a cyclic import, does what `onCycle` says. -/
inductive GoesOn (onCycle : Span → String → Compile Fragment) :
    CompileError → CompileState → EStateM.Result CompileError CompileState α → Prop where
  | same {error : CompileError} {t : CompileState} (acyclic : error.fault.cycle? = none) :
      GoesOn onCycle error t (.error error t)
  | cycle {span : Span} {path : String} {t : CompileState} (rest : Fragment → Compile α) :
      GoesOn onCycle ⟨.cyclicImport path, span⟩ t ((onCycle span path >>= rest) t)

namespace GoesOn

variable {onCycle : Span → String → Compile Fragment}
  {result : EStateM.Result CompileError CompileState α}

theorem bind (goesOn : GoesOn onCycle error t (action' s)) :
    GoesOn onCycle error t ((action' >>= next') s) := by
  generalize same : action' s = result at goesOn
  cases goesOn with
  | same acyclic =>
    rw [bind_error same]
    exact .same acyclic
  | @cycle span path t rest =>
    have later : (action' >>= next') s = (onCycle span path >>= fun code =>
        rest code >>= next') t := by
      change EStateM.bind action' next' s = _
      rw [EStateM.bind, same, ← bind_assoc]
      rfl
    rw [later]
    exact .cycle _

/-- An error is that of the same compilation. -/
theorem refl (error : CompileError) (t : CompileState) :
    GoesOn (fun span path => fail (.cyclicImport path) span) error t
      (.error error t : EStateM.Result CompileError CompileState α) := by
  obtain ⟨fault, span⟩ := error
  cases cycle : fault.cycle? with
  | none => exact .same cycle
  | some path =>
    obtain rfl := CompileFault.eq_of_cycle? cycle
    exact .cycle fun _ => fail (.cyclicImport path) span

theorem of_acyclic (goesOn : GoesOn onCycle error t result) (acyclic : error.fault.cycle? = none) :
    result = .error error t := by
  cases goesOn with
  | same => rfl
  | cycle => cases acyclic

theorem of_cycle (goesOn : GoesOn onCycle ⟨.cyclicImport path, span⟩ t result) :
    ∃ rest, result = (onCycle span path >>= rest) t := by
  cases goesOn with
  | same acyclic => cases acyclic
  | cycle rest => exact ⟨rest, rfl⟩

end GoesOn

end Compile

end Skiff
