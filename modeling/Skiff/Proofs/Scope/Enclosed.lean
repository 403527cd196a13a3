import Skiff.Proofs.Scope.Ledger

/-!
# Tables without global variables

A variable is global if it is defined outside of all functions. A table that starts inside of a
function and knows no global variable gets none, whatever is defined, looked up or captured in it.
-/

namespace Skiff

open Array

namespace SymbolTable

/-- Every symbol is local, free or a builtin. -/
def NoGlobals (symbols : Array Symbol) : Prop :=
  ∀ ⦃id : Nat⦄ ⦃symbol : Symbol⦄, symbols[id]? = some symbol → symbol.storage ≠ .global

theorem NoGlobals.push {symbols : Array Symbol} (none : NoGlobals symbols) {symbol : Symbol}
    (plain : symbol.storage ≠ .global) : NoGlobals (symbols.push symbol) := by
  intro id other made
  rw [getElem?_push] at made
  split at made
  · cases made
    exact plain
  · exact none made

/-- A table that is inside of a function and has no global variables. -/
structure Enclosed (table : SymbolTable) : Prop where
  sound : SoundChain table.symbols table.chain
  inside : table.inFunction = true
  plain : NoGlobals table.symbols

/-- A table without global variables that comes behind another one, with the same scopes open. -/
structure Encloses (table table' : SymbolTable) : Prop where
  enclosed : table'.Enclosed
  grows : Grows table table'

variable {table table' table'' : SymbolTable}

theorem Enclosed.refl (enclosed : table.Enclosed) : Encloses table table :=
  ⟨enclosed, .refl _⟩

theorem Encloses.trans (first : Encloses table table') (second : Encloses table' table'') :
    Encloses table table'' :=
  ⟨second.enclosed, first.grows.trans second.grows⟩

section
variable (enclosed : table.Enclosed)
include enclosed

theorem Enclosed.symbol {id : Nat} (made : id < table.symbols.size) :
    (table.symbol id).storage ≠ .global := by
  have here := getElem?_eq_getElem made
  rw [SymbolTable.symbol, getD_of_made here]
  exact enclosed.plain here

theorem Enclosed.grow (grows : Grows table table')
    (sound : SoundChain table'.symbols table'.chain) : Encloses table table' := by
  refine ⟨⟨sound, grows.inFunction.trans enclosed.inside, fun id symbol made isGlobal => ?_⟩, grows⟩
  have slot := slotOf?_of_made made
  rw [isGlobal] at slot
  by_cases old : id < table.symbols.size
  · obtain ⟨symbol', made', same⟩ := Option.map_eq_some_iff.1 ((grows.old old).symm.trans slot)
    exact enclosed.plain made' (congrArg Prod.fst same)
  · exact (grows.new (Nat.le_of_not_lt old) slot).2 enclosed.inside rfl

/-- What a look-up finds has been made. -/
theorem Enclosed.resolve (name : String) :
    Encloses table (table.resolve name false).1 ∧
      ∀ id depth, (table.resolve name false).2 = some (id, depth) →
        id < (table.resolve name false).1.symbols.size := by
  rcases table.resolve_cases name false with ⟨-, none⟩ | ⟨found, looked, answer, chain, symbols⟩
  · rw [none]
    exact ⟨enclosed.refl, fun _ _ found => Option.noConfusion rfl (heq_of_eq found)⟩
  · obtain ⟨-, -, -, symbol, made, -⟩ := resolveIn_sound enclosed.sound looked
    refine ⟨enclosed.grow (grows_resolve looked chain symbols)
      (sound_change enclosed.sound (.resolve name false)).1, fun id depth answer' => ?_⟩
    obtain ⟨rfl, -⟩ := Prod.mk.inj (Option.some.inj (answer.symm.trans answer'))
    rw [symbols]
    exact (Array.getElem?_eq_some_iff.1 made).1

theorem Enclosed.enter (block : Bool) : (table.enter block).Enclosed := by
  exact ⟨(sound_change enclosed.sound (.enter block)).1, inFunction_enter enclosed.inside block,
    enclosed.plain⟩

end

/-- Behind a scope, the scopes around it are open as before. -/
theorem Encloses.leave {block : Bool} (before : table.Enclosed)
    (inner : Encloses (table.enter block) table') : Encloses table table'.leave := by
  have grows := inner.grows.leave
  exact ⟨⟨(sound_change inner.enclosed.sound .leave).1, grows.inFunction.trans before.inside,
    table'.symbols_leave ▸ inner.enclosed.plain⟩, grows⟩

/-- What the current scope captures are symbols that have been made. -/
theorem Enclosed.captured (enclosed : table.Enclosed) {id : Nat}
    (member : id ∈ table.current.captured.toList) : id < table.symbols.size := by
  obtain ⟨index, captured⟩ := mem_iff_getElem?.1 (mem_toList_iff.1 member)
  obtain ⟨original, made, -⟩ := enclosed.sound.1.captured captured
  exact (Array.getElem?_eq_some_iff.1 made).1

/-- A function scope inside of a table with nothing but builtins. -/
theorem enclosed_builtins (builtins : List Symbol) :
    Enclosed ((builtins.foldl (fun (table : SymbolTable) builtin =>
      (table.defineBuiltin builtin.index builtin.name).1) {}).enter false) := by
  let start : SymbolTable := {}
  have first : SoundChain start.symbols start.chain ∧ NoGlobals start.symbols :=
    ⟨⟨soundScope_empty _ _, trivial⟩, fun _ _ made => by simp [start] at made⟩
  have all := List.foldlRecOn (motive := fun table : SymbolTable =>
      SoundChain table.symbols table.chain ∧ NoGlobals table.symbols) builtins
    (fun table builtin => (table.defineBuiltin builtin.index builtin.name).1) first
    fun table before builtin _ =>
      ⟨(sound_change before.1 (.defineBuiltin builtin.index builtin.name)).1,
      before.2.push Storage.noConfusion⟩
  exact ⟨(sound_change all.1 (.enter false)).1, rfl, all.2⟩

end SymbolTable

end Skiff
