import Mathlib.Data.List.Forall2
import Skiff.Builtin

/-!
# Changes of a symbol table

What can be done to a symbol table, one change after the other, and what each change does to the
scopes that are open and to the symbols that have been made.
-/

namespace Skiff

open List

inductive TableChange where
  | define (name : String)
  | defineHidden (name : String)
  | defineBuiltin (index : Nat) (name : String)
  | markAssigned (id : Nat)
  | enter (block : Bool)
  | leave
  | resolve (name : String) (inner : Bool)

theorem getElem?_push_of_found {α : Type} {items : Array α} {item found : α} {index : Nat}
    (here : items[index]? = some found) : (items.push item)[index]? = some found := by
  have inside := (Array.getElem?_eq_some_iff.1 here).1
  rw [Array.getElem?_push_lt inside, ← Array.getElem?_eq_getElem inside]
  exact here

namespace SymbolTable

def change (table : SymbolTable) : TableChange → SymbolTable
  | .define name => (table.define name).1
  | .defineHidden name => (table.defineHidden name).1
  | .defineBuiltin index name => (table.defineBuiltin index name).1
  | .markAssigned id => table.markAssigned id
  | .enter block => table.enter block
  | .leave => table.leave
  | .resolve name inner => (table.resolve name inner).1

/-- The table after a number of changes. -/
def after (table : SymbolTable) (changes : List TableChange) : SymbolTable :=
  changes.foldl change table

/-- A table that nothing has been done to, with or without builtins. -/
inductive Initial : SymbolTable → Prop where
  | empty : Initial {}
  | builtins : Initial .withBuiltins

/-- A property that every change keeps is kept by any number of them. -/
theorem after_of_step (holds : SymbolTable → Prop)
    (step : ∀ table change, holds table → holds (table.change change)) {table : SymbolTable}
    (before : holds table) (changes : List TableChange) : holds (table.after changes) :=
  foldlRecOn (motive := holds) changes change before fun table before change _ =>
    step table change before

/-- A property of the empty table that every change keeps is one of all tables. -/
theorem after_induction (holds : SymbolTable → Prop) (empty : holds {})
    (step : ∀ table change, holds table → holds (table.change change)) {start : SymbolTable}
    (initial : start.Initial) (changes : List TableChange) : holds (start.after changes) := by
  refine after_of_step holds step ?_ changes
  cases initial with
  | empty => exact empty
  | builtins =>
    exact foldlRecOn (motive := holds) _ _ empty fun table before (builtin, number) _ =>
      step table (.defineBuiltin number builtin.name) before

/-! ## Scopes that are open -/

@[simp] theorem chain_withChain (table : SymbolTable) {scopes : List Scope} (some : scopes ≠ []) :
    (table.withChain scopes).chain = scopes := by
  cases scopes with
  | nil => exact absurd rfl some
  | cons current outer => rfl

@[simp] theorem symbols_withChain (table : SymbolTable) (scopes : List Scope) :
    (table.withChain scopes).symbols = table.symbols := by
  cases scopes <;> rfl

@[simp] theorem opened_withChain (table : SymbolTable) (scopes : List Scope) :
    (table.withChain scopes).opened = table.opened := by
  cases scopes <;> rfl

section
variable {relation : Scope → Scope → Prop}

theorem exists_of_mem_forall₂ {α β : Type} {relation : α → β → Prop} {left : List α}
    {right : List β} (related : Forall₂ relation left right) {other : β} (member : other ∈ right) :
    ∃ one ∈ left, relation one other := by
  induction related with
  | nil => cases member
  | cons here _ ih =>
    rcases mem_cons.1 member with rfl | later
    · exact ⟨_, mem_cons_self .., here⟩
    · obtain ⟨one, member, related⟩ := ih later
      exact ⟨one, mem_cons_of_mem _ member, related⟩

theorem forall₂_trans (trans : ∀ {first second third}, relation first second →
    relation second third →
    relation first third) {chain chain' chain'' : List Scope}
      (first : Forall₂ relation chain chain')
    (second : Forall₂ relation chain' chain'') : Forall₂ relation chain chain'' := by
  induction first generalizing chain'' with
  | nil => exact second
  | cons here _ ih =>
    cases second with
    | cons there later => exact .cons (trans here there) (ih later)

variable (refl : ∀ scope, relation scope scope)
include refl

theorem forall₂_noteSlots {count : Nat}
    (most : ∀ scope, relation scope { scope with most := max scope.most count })
    (chain : List Scope) : Forall₂ relation chain (noteSlots count chain) := by
  induction chain with
  | nil => exact .nil
  | cons scope outer ih =>
    refine .cons (most scope) ?_
    split
    · exact ih
    · exact forall₂_same.2 fun scope _ => refl scope

theorem forall₂_countAtRoot
    (defined : ∀ scope, relation scope { scope with defined := scope.defined + 1 })
    (chain : List Scope) : Forall₂ relation chain (countAtRoot chain) := by
  fun_induction countAtRoot chain with
  | case1 => exact .nil
  | case2 root => exact .cons (defined root) .nil
  | case3 scope outer _ ih => exact .cons (refl scope) ih

end

/-- Scopes that differ only in how many slots they count. -/
structure Recounted (scope scope' : Scope) : Prop where
  number : scope'.number = scope.number
  block : scope'.block = scope.block
  names : scope'.names = scope.names
  captured : scope'.captured = scope.captured

theorem Recounted.refl (scope : Scope) : Recounted scope scope := ⟨rfl, rfl, rfl, rfl⟩

theorem recounted_refl (chain : List Scope) : Forall₂ Recounted chain chain :=
  forall₂_same.2 fun scope _ => .refl scope

theorem recounted_noteSlots (count : Nat) (chain : List Scope) :
    Forall₂ Recounted chain (noteSlots count chain) :=
  forall₂_noteSlots .refl (fun _ => ⟨rfl, rfl, rfl, rfl⟩) chain

theorem recounted_countAtRoot (chain : List Scope) : Forall₂ Recounted chain (countAtRoot chain) :=
  forall₂_countAtRoot .refl (fun _ => ⟨rfl, rfl, rfl, rfl⟩) chain

theorem recounted_trans {chain chain' chain'' : List Scope} :
    Forall₂ Recounted chain chain' → Forall₂ Recounted chain' chain'' →
      Forall₂ Recounted chain chain'' :=
  forall₂_trans fun first second =>
    ⟨second.number.trans first.number, second.block.trans first.block,
    second.names.trans first.names, second.captured.trans first.captured⟩

theorem ne_nil_of_recounted {chain chain' : List Scope}
    (recounted : Forall₂ Recounted chain chain') (some : chain ≠ []) : chain' ≠ [] := by
  cases recounted with
  | nil => exact absurd rfl some
  | cons => exact cons_ne_nil _ _

theorem chain_ne_nil (table : SymbolTable) : table.chain ≠ [] := cons_ne_nil _ _

/-! ## Taking a slot -/

/-- The open scopes with one more slot: in the current scope, or outside of functions in the
outermost one. -/
def countOne (table : SymbolTable) : List Scope :=
  if table.inFunction then
    { table.current with defined := table.current.defined + 1 } :: table.outer
  else countAtRoot table.chain

section
variable (table : SymbolTable)
include table

theorem recounted_countOne : Forall₂ Recounted table.chain table.countOne := by
  rw [countOne]
  split
  · exact .cons ⟨rfl, rfl, rfl, rfl⟩ (recounted_refl _)
  · exact recounted_countAtRoot _

theorem takeSlot_eq :
    table.takeSlot = (table.withChain (noteSlots (nextSlot table.chain + 1) table.countOne),
      if table.inFunction then .local_ else .global, nextSlot table.chain) := by
  have counted := ne_nil_of_recounted (recounted_countAtRoot table.chain) table.chain_ne_nil
  rw [takeSlot, countOne]
  split
  · rfl
  · cases rest : countAtRoot table.chain with
    | nil => exact absurd rest counted
    | cons current outer => rfl

/-- The scopes behind a slot that was taken. -/
theorem chain_takeSlot :
    table.takeSlot.1.chain = noteSlots (nextSlot table.chain + 1) table.countOne := by
  rw [takeSlot_eq, chain_withChain]
  exact ne_nil_of_recounted (recounted_trans table.recounted_countOne (recounted_noteSlots _ _))
    table.chain_ne_nil

theorem recounted_takeSlot : Forall₂ Recounted table.chain table.takeSlot.1.chain := by
  rw [chain_takeSlot]
  exact recounted_trans table.recounted_countOne (recounted_noteSlots _ _)

@[simp] theorem symbols_takeSlot : table.takeSlot.1.symbols = table.symbols := by
  rw [takeSlot_eq, symbols_withChain]

@[simp] theorem opened_takeSlot : table.takeSlot.1.opened = table.opened := by
  rw [takeSlot_eq, opened_withChain]

end

end SymbolTable

end Skiff
