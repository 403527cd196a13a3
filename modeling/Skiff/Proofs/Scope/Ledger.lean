import Skiff.Proofs.Scope.Slots

/-!
# Slots that are counted

Code of a scope can name what look-ups find from there. Such a symbol lives in a slot that its
function counts: a local variable in one of those that the function needs, a free symbol in the
place of what the function captures. Every change of a table keeps this, and what can be named at
one time can be named until the scope is left.
-/

namespace Skiff

open List Array

namespace SymbolTable

/-! ## Tables as they grow -/

/-- A scope later on. -/
structure Deepens (scope scope' : Scope) : Prop where
  block : scope'.block = scope.block
  most : scope.most ≤ scope'.most
  captured : scope.captured.size ≤ scope'.captured.size

/-- A scope later on, which binds no local variables that it has not bound before. -/
structure Stays (symbols : Array Symbol) (scope scope' : Scope) :
    Prop extends Deepens scope scope' where
  names {name : String} {id index : Nat} : scope'.names[name]? = some id →
    slotOf? symbols id = some (.local_, index) → scope.names[name]? = some id

variable {chain chain' : List Scope} {scope scope' : Scope} {symbols symbols' : Array Symbol}

theorem Deepens.refl (scope : Scope) : Deepens scope scope := ⟨rfl, Nat.le_refl _, Nat.le_refl _⟩

theorem deepens_refl (chain : List Scope) : Forall₂ Deepens chain chain :=
  forall₂_same.2 fun scope _ => .refl scope

theorem Deepens.trans {scope'' : Scope} (first : Deepens scope scope')
    (second : Deepens scope' scope'') : Deepens scope scope'' :=
  ⟨second.block.trans first.block, Nat.le_trans first.most second.most,
    Nat.le_trans first.captured second.captured⟩

theorem deepens_trans {chain'' : List Scope} :
    Forall₂ Deepens chain chain' → Forall₂ Deepens chain' chain'' → Forall₂ Deepens chain chain'' :=
  forall₂_trans fun first second => first.trans second

theorem Stays.refl (scope : Scope) : Stays symbols scope scope :=
  ⟨.refl scope, fun bound _ => bound⟩

theorem stays_refl (chain : List Scope) : Forall₂ (Stays symbols) chain chain :=
  forall₂_same.2 fun scope _ => .refl scope

theorem deepens_of_stays (stays : Forall₂ (Stays symbols) chain chain') :
    Forall₂ Deepens chain chain' :=
  stays.imp fun _ _ => Stays.toDeepens

theorem stays_takeSlot (table : SymbolTable) :
    Forall₂ (Stays symbols) table.chain table.takeSlot.1.chain := by
  rw [chain_takeSlot]
  refine forall₂_trans (fun first second => ⟨first.trans second.toDeepens, fun bound slot =>
    first.names (second.names bound slot) slot⟩) ?_
    (forall₂_noteSlots .refl
      (fun _ => ⟨⟨rfl, Nat.le_max_left _ _, Nat.le_refl _⟩, fun bound _ => bound⟩) _)
  rw [countOne]
  split
  · exact .cons ⟨⟨rfl, Nat.le_refl _, Nat.le_refl _⟩, fun bound _ => bound⟩ (stays_refl _)
  · exact forall₂_countAtRoot .refl
      (fun _ => ⟨⟨rfl, Nat.le_refl _, Nat.le_refl _⟩, fun bound _ => bound⟩) _

variable {name : String} {inner : Bool} {found : Resolution} {symbol : Symbol} {outer : List Scope}
  {function : Scope} {table table' table'' : SymbolTable} {id index count : Nat} {storage : Storage}

/-- What a look-up binds anew are free symbols. -/
theorem stays_resolveIn (looked : LookUp name symbols chain inner found) :
    Forall₂ (Stays found.symbols) chain found.scopes := by
  induction looked with
  | here => exact stays_refl _
  | @captured scope _ _ further _ _ _ _ ih =>
    have new {id index : Nat} (slot : slotOf? (capture scope further.symbols further.id).2.1 id
        = some (.local_, index)) : id ≠ further.symbols.size ∧ slotOf? further.symbols id = some
          (.local_, index) := by
      simp only [capture, slotOf?_push] at slot
      split at slot
      · cases slot
      · exact ⟨‹_›, slot⟩
    refine .cons ⟨⟨rfl, Nat.le_refl _, ?_⟩, fun bound slot => ?_⟩ (ih.imp fun _ _ stays =>
      ⟨stays.toDeepens, fun bound slot => stays.names bound (new slot).2⟩)
    · rw [capture, size_push]
      exact Nat.le_succ _
    · simp only [capture, Std.HashMap.getElem?_insert] at bound
      split at bound
      · exact absurd (Option.some.inj bound).symm (new slot).1
      · exact bound
  | passed _ _ _ ih => exact .cons (.refl _) ih

/-- A table later on, before the current scope is left. What is new is no builtin, and inside of
functions no global variable. -/
structure Grows (table table' : SymbolTable) : Prop where
  slot {id : Nat} {slot : Storage × Nat} : slotOf? table.symbols id = some slot →
    slotOf? table'.symbols id = some slot
  size : table.symbols.size ≤ table'.symbols.size
  chain : Forall₂ Deepens table.chain table'.chain
  new {id index : Nat} {storage : Storage} : table.symbols.size ≤ id →
    slotOf? table'.symbols id = some (storage, index) →
    storage ≠ .builtin ∧ (table.inFunction = true → storage ≠ .global)

theorem Grows.old (grows : Grows table table') (old : id < table.symbols.size) :
    slotOf? table'.symbols id = slotOf? table.symbols id := by
  have there := slotOf?_of_made (getElem?_eq_getElem old)
  rw [there, grows.slot there]

theorem Grows.inFunction (grows : Grows table table') : table'.inFunction = table.inFunction :=
  chainInFunction_related Deepens.block grows.chain

theorem Grows.refl (table : SymbolTable) : Grows table table :=
  ⟨id, Nat.le_refl _, deepens_refl _, fun outside slot =>
    absurd (slotOf?_lt slot) (Nat.not_lt.2 outside)⟩

theorem Grows.trans (first : Grows table table') (second : Grows table' table'') :
    Grows table table'' := by
  refine ⟨second.slot ∘ first.slot, Nat.le_trans first.size second.size,
    deepens_trans first.chain second.chain, fun {id index storage} outside here => ?_⟩
  by_cases old : id < table'.symbols.size
  · exact first.new outside ((second.old old).symm.trans here)
  · rw [← first.inFunction]
    exact second.new (Nat.le_of_not_lt old) here

/-- A symbol more, which lives in the next slot. -/
theorem grows_take (symbols : table'.symbols = table.takeSlot.1.symbols.push symbol)
    (storage : symbol.storage = table.takeSlot.2.1) (index : symbol.index = table.takeSlot.2.2)
    (deeper : Forall₂ Deepens table.takeSlot.1.chain table'.chain) : Grows table table' := by
  have slot := slotOf?_take symbols storage index
  have stays : Forall₂ (Stays table.symbols) table.chain table.takeSlot.1.chain :=
    table.stays_takeSlot
  refine ⟨fun {id _} known => ?_, ?_, deepens_trans (deepens_of_stays stays) deeper,
    fun {id index storage} outside here => ?_⟩
  · rw [slot, if_neg (Nat.ne_of_lt (slotOf?_lt known))]
    exact known
  · rw [symbols, size_push, symbols_takeSlot]
    exact Nat.le_succ _
  · rw [slot] at here
    split at here
    · cases here
      exact ⟨by split <;> simp, fun inside => by simp [inside]⟩
    · exact absurd (slotOf?_lt here) (Nat.not_lt.2 outside)

theorem grows_define (table : SymbolTable) (name : String) : Grows table (table.define name).1 :=
  grows_take rfl rfl rfl (.cons ⟨rfl, Nat.le_refl _, Nat.le_refl _⟩ (deepens_refl _))

theorem grows_defineHidden (table : SymbolTable) (name : String) :
    Grows table (table.defineHidden name).1 :=
  grows_take rfl rfl rfl (deepens_refl _)

theorem grows_markAssigned (table : SymbolTable) (id : Nat) :
    Grows table (table.markAssigned id) := by
  have size : (table.markAssigned id).symbols.size = table.symbols.size := size_modify
  exact ⟨fun known => by rw [slotOf?_markAssigned]; exact known, Nat.le_of_eq size.symm,
    deepens_refl _, fun outside slot => absurd (size ▸ slotOf?_lt slot) (Nat.not_lt.2 outside)⟩

theorem grows_resolve (looked : LookUp name table.symbols table.chain inner found)
    (chain : (table.resolve name inner).1.chain = found.scopes)
    (symbols : (table.resolve name inner).1.symbols = found.symbols) :
    Grows table (table.resolve name inner).1 := by
  obtain ⟨-, size, old, free⟩ := slotsGrow_resolveIn looked
  rw [← symbols] at size old free
  refine ⟨fun known => (old _ (slotOf?_lt known)).trans known, size,
    chain ▸ deepens_of_stays (stays_resolveIn looked), fun outside slot => ?_⟩
  rw [free _ outside _ _ slot]
  exact ⟨Storage.noConfusion, fun _ => Storage.noConfusion⟩

theorem inFunction_enter (inside : table.inFunction = true) (block : Bool) :
    (table.enter block).inFunction = true := by
  rw [inFunction, chain, chainInFunction]
  split
  · exact inside
  · rfl

theorem symbols_leave (table : SymbolTable) : table.leave.symbols = table.symbols := by
  rw [leave]
  split <;> rfl

/-- Behind a scope, the scopes around it are open as before. -/
theorem Grows.leave {block : Bool} (inner : Grows (table.enter block) table') :
    Grows table table'.leave := by
  have symbols := table'.symbols_leave
  refine ⟨fun known => symbols ▸ inner.slot known, symbols ▸ inner.size, ?_, fun outside here => ?_⟩
  · have deeper := inner.chain
    rw [SymbolTable.chain, SymbolTable.chain] at deeper
    cases deeper with
    | cons _ later =>
      rw [SymbolTable.leave]
      generalize table'.outer = outer at later
      cases later with
      | cons here later => exact .cons here later
  · obtain ⟨builtin, global⟩ := inner.new outside (symbols ▸ here)
    exact ⟨builtin, fun inside => global (inFunction_enter inside block)⟩

/-! ## Slots that are counted -/

/-- How many slots the innermost function of a chain needs for its variables. -/
def localsOf : List Scope → Nat
  | [] => 0
  | scope :: outer =>
    if scope.block then localsOf outer else if outer.isEmpty then 0 else scope.most

/-- How many variables the innermost function of a chain captures. -/
def cellsOf : List Scope → Nat
  | [] => 0
  | scope :: outer => if scope.block then cellsOf outer else scope.captured.size

section
variable (deeper : Forall₂ Deepens chain chain')
include deeper

theorem localsOf_mono : localsOf chain ≤ localsOf chain' := by
  induction deeper with
  | nil => exact Nat.le_refl _
  | cons here later ih =>
    rw [localsOf, localsOf, here.block]
    split
    · exact ih
    · cases later with
      | nil => exact Nat.le_refl _
      | cons => exact here.most

theorem cellsOf_mono : cellsOf chain ≤ cellsOf chain' := by
  induction deeper with
  | nil => exact Nat.le_refl _
  | cons here _ ih =>
    rw [cellsOf, cellsOf, here.block]
    split
    · exact ih
    · exact here.captured

end

theorem le_localsOf (inside : chainInFunction chain = true)
    (most : ∀ {function outer}, functionChain chain = function :: outer → count ≤ function.most) :
    count ≤ localsOf chain := by
  induction chain with
  | nil => cases inside
  | cons scope outer ih =>
    rw [chainInFunction] at inside
    rw [functionChain] at most
    rw [localsOf]
    split at inside
    · rw [if_pos ‹_›] at most ⊢
      exact ih inside most
    · rw [if_neg ‹_›] at most ⊢
      rw [if_neg (by simpa using inside)]
      exact most rfl

/-- The number of a slot is among those that are counted. -/
def Counted (chain : List Scope) (index : Nat) : Storage → Prop
  | .global => True
  | .local_ => index < localsOf chain
  | .free => index < cellsOf chain
  | .builtin => index < Builtin.all.length

theorem Counted.mono (counted : Counted chain index storage)
    (deeper : Forall₂ Deepens chain chain') : Counted chain' index storage := by
  cases storage with
  | global | builtin => exact counted
  | local_ => exact Nat.lt_of_lt_of_le counted (localsOf_mono deeper)
  | free => exact Nat.lt_of_lt_of_le counted (cellsOf_mono deeper)

/-- Seen from each scope of a chain, the local variables that it binds are counted. -/
def LocalsFit (symbols : Array Symbol) : List Scope → Prop
  | [] => True
  | scope :: outer => (∀ ⦃name : String⦄ ⦃id index : Nat⦄, scope.names[name]? = some id →
      slotOf? symbols id = some (.local_, index) → index < localsOf (scope :: outer)) ∧
    LocalsFit symbols outer

theorem LocalsFit.mono (fit : LocalsFit symbols chain) (sound : SoundChain symbols chain)
    (old : ∀ {id}, id < symbols.size → slotOf? symbols' id = slotOf? symbols id)
    (stays : Forall₂ (Stays symbols') chain chain') : LocalsFit symbols' chain' := by
  induction stays with
  | nil => trivial
  | cons here later ih =>
    refine ⟨fun name id index bound slot => ?_, ih fit.2 sound.2⟩
    have before := here.names bound slot
    obtain ⟨symbol, made, -⟩ := sound.1.bound before
    rw [old (Array.getElem?_eq_some_iff.1 made).1] at slot
    exact Nat.lt_of_lt_of_le (fit.1 before slot)
      (localsOf_mono (deepens_of_stays (.cons here later)))

theorem LocalsFit.lt (fit : LocalsFit symbols chain) (member : scope ∈ functionScopes chain)
    (bound : scope.names[name]? = some id) (slot : slotOf? symbols id = some (.local_, index)) :
    index < localsOf chain := by
  induction chain with
  | nil => cases member
  | cons first outer ih =>
    rw [functionScopes] at member
    split at member
    · rcases mem_cons.1 member with rfl | later
      · exact fit.1 bound slot
      · rw [localsOf, if_pos ‹_›]
        exact ih fit.2 later
    · obtain rfl := mem_singleton.1 member
      exact fit.1 bound slot

theorem cellsOf_eq (here : functionChain chain = function :: outer) :
    cellsOf chain = function.captured.size := by
  induction chain with
  | nil => cases here
  | cons scope outer ih =>
    rw [functionChain] at here
    rw [cellsOf]
    split at here
    · rw [if_pos ‹_›]
      exact ih here
    · cases here
      exact if_neg ‹_›

/-- What belongs to the innermost function of a chain is counted. -/
theorem counted_of_held (sound : SoundChain symbols chain) (fit : LocalsFit symbols chain)
    (made : symbols[id]? = some symbol) (held : Held chain id symbol) :
    Counted chain symbol.index symbol.storage := by
  cases held with
  | local_ isLocal member bound =>
    rw [isLocal]
    exact fit.lt member bound ((slotOf?_of_made made).trans (by rw [isLocal]))
  | free isFree function bound =>
    obtain ⟨-, next, _, captured, -⟩ := (sound.function function).free bound made isFree
    rw [isFree, Counted, cellsOf_eq function]
    exact (Array.getElem?_eq_some_iff.1 captured).1

/-! ## Outside of functions -/

theorem localsOf_outside (outside : chainInFunction chain = false) : localsOf chain = 0 := by
  induction chain with
  | nil => rfl
  | cons scope outer ih =>
    rw [chainInFunction] at outside
    rw [localsOf]
    split at outside
    · rw [if_pos ‹_›]
      exact ih outside
    · rw [if_neg ‹_›, if_pos (by simpa using outside)]

theorem not_held_nil : ¬Held [] id symbol := by
  intro held
  cases held with
  | local_ _ member _ => cases member
  | free _ here _ => cases here

theorem captured_eq_empty (sound : SoundScope symbols scope outer)
    (none : ∀ {id symbol}, symbols[id]? = some symbol → ¬Held outer id symbol) :
      scope.captured = #[] := by
  by_contra some
  obtain ⟨original, made, held⟩ := sound.captured
    (getElem?_eq_getElem (Nat.pos_of_ne_zero fun none => some (size_eq_zero_iff.1 none)))
  exact none made held

theorem cellsOf_outside (sound : SoundChain symbols chain)
    (outside : chainInFunction chain = false) : cellsOf chain = 0 := by
  induction chain with
  | nil => rfl
  | cons scope outer ih =>
    rw [chainInFunction] at outside
    rw [cellsOf]
    split at outside
    · rw [if_pos ‹_›]
      exact ih sound.2 outside
    · obtain rfl : outer = [] := by simpa using outside
      rw [if_neg ‹_›, captured_eq_empty sound.1 fun _ => not_held_nil]
      rfl

/-- A function that is in no other function captures nothing. -/
theorem captured_outside (sound : SoundChain symbols (function :: outer))
    (fit : LocalsFit symbols outer)
    (outside : chainInFunction outer = false) : function.captured = #[] := by
  refine captured_eq_empty sound.1 fun made held => ?_
  have counted := counted_of_held sound.2 fit made held
  cases held with
  | local_ storage =>
    rw [storage, Counted, localsOf_outside outside] at counted
    exact Nat.not_lt_zero _ counted
  | free storage =>
    rw [storage, Counted, cellsOf_outside sound.2 outside] at counted
    exact Nat.not_lt_zero _ counted

/-! ## What changes do to it -/

/-- A table in which all that look-ups find lives in slots that are counted. -/
structure Roomy (table : SymbolTable) : Prop where
  sound : SoundChain table.symbols table.chain
  locals : LocalsFit table.symbols table.chain
  builtin {id index : Nat} : slotOf? table.symbols id = some (.builtin, index) →
    index < Builtin.all.length

/-- A symbol that code of the current scope can name. -/
def Named (table : SymbolTable) (id : Nat) : Prop :=
  ∃ storage index, slotOf? table.symbols id = some (storage, index) ∧
    Counted table.chain index storage

theorem Named.grow (named : table.Named id) (grows : Grows table table') : table'.Named id := by
  obtain ⟨storage, index, slot, counted⟩ := named
  exact ⟨storage, index, grows.slot slot, counted.mono grows.chain⟩

theorem named_of_made (made : table.symbols[id]? = some symbol)
    (counted : Counted table.chain symbol.index symbol.storage) : table.Named id :=
  ⟨_, _, slotOf?_of_made made, counted⟩

/-- The slot that was taken is counted. -/
theorem counted_take (deeper : Forall₂ Deepens table.takeSlot.1.chain chain) :
    Counted chain (nextSlot table.chain) (if table.inFunction then .local_ else .global) := by
  by_cases inside : table.inFunction = true
  · rw [if_pos inside]
    have within := (chainInFunction_related Recounted.block table.recounted_takeSlot).trans inside
    have counted : Counted table.takeSlot.1.chain (nextSlot table.chain) .local_ :=
      le_localsOf within fun here => le_most_noteSlots (table.chain_takeSlot ▸ here)
    exact counted.mono deeper
  · rw [if_neg inside]
    trivial

section
variable (roomy : table.Roomy)
include roomy

theorem Roomy.grow (grows : Grows table table') (sound : SoundChain table'.symbols table'.chain)
    (fit : LocalsFit table'.symbols table'.chain) : table'.Roomy := by
  refine ⟨sound, fit, fun {id index} slot => ?_⟩
  by_cases old : id < table.symbols.size
  · exact roomy.builtin ((grows.old old).symm.trans slot)
  · exact absurd rfl (grows.new (Nat.le_of_not_lt old) slot).1

theorem Roomy.markAssigned (id : Nat) : (table.markAssigned id).Roomy := by
  have grows := table.grows_markAssigned id
  exact roomy.grow grows (sound_change roomy.sound (.markAssigned id)).1
    (roomy.locals.mono roomy.sound grows.old (stays_refl _))

theorem Roomy.defineHidden (name : String) :
    (table.defineHidden name).1.Roomy ∧ (table.defineHidden name).1.Named
      (table.defineHidden name).2 := by
  have grows := table.grows_defineHidden name
  refine ⟨roomy.grow grows (sound_change roomy.sound (.defineHidden name)).1
    (roomy.locals.mono roomy.sound grows.old table.stays_takeSlot), ?_⟩
  exact ⟨_, _, (slotOf?_take rfl rfl rfl _).trans (if_pos (congrArg size table.symbols_takeSlot)),
    counted_take (deepens_refl _)⟩

theorem Roomy.define (name : String) :
    (table.define name).1.Roomy ∧ (table.define name).1.Named (table.define name).2 := by
  have grows := table.grows_define name
  have slot : slotOf? (table.define name).1.symbols (table.define name).2 = _ :=
    slotOf?_define table name
  have counted : Counted _ (nextSlot table.chain) _ :=
    counted_take (deepens_refl table.takeSlot.1.chain)
  have fit := roomy.locals.mono roomy.sound grows.old table.stays_takeSlot
  refine ⟨roomy.grow grows (sound_change roomy.sound (.define name)).1 ⟨?_, fit.2⟩, _, _,
    slot, counted⟩
  intro other id index bound here
  change (table.takeSlot.1.current.names.insert name (table.define name).2)[other]?
    = some id at bound
  rw [Std.HashMap.getElem?_insert] at bound
  split at bound
  · cases bound
    rw [slot] at here
    obtain ⟨isLocal, rfl⟩ := Prod.mk.inj (Option.some.inj here)
    rw [isLocal] at counted
    exact counted
  · exact fit.1 bound here

theorem Roomy.resolve (name : String) :
    (table.resolve name false).1.Roomy ∧ Grows table (table.resolve name false).1 ∧
    ∀ id depth, (table.resolve name false).2 = some (id, depth) →
      (table.resolve name false).1.Named id := by
  rcases table.resolve_cases name false with ⟨-, none⟩ | ⟨found, looked, answer, chain, symbols⟩
  · rw [none]
    exact ⟨roomy, .refl _, fun _ _ found => Option.noConfusion rfl (heq_of_eq found)⟩
  · obtain ⟨-, -, -, symbol, made, -, held⟩ := resolveIn_sound roomy.sound looked
    have grows := grows_resolve looked chain symbols
    have stays := stays_resolveIn looked
    rw [← symbols] at made stays
    rw [← chain] at held stays
    have after : (table.resolve name false).1.Roomy :=
      roomy.grow grows (sound_change roomy.sound (.resolve name false)).1
        (roomy.locals.mono roomy.sound grows.old stays)
    refine ⟨after, grows, fun id depth answer' => ?_⟩
    obtain ⟨rfl, -⟩ := Prod.mk.inj (Option.some.inj (answer.symm.trans answer'))
    refine named_of_made made ?_
    by_cases capturable : Capturable symbol
    · exact counted_of_held after.sound after.locals made (held capturable)
    · have slot := slotOf?_of_made made
      cases storage : symbol.storage with
      | local_ => exact absurd (.inl storage) capturable
      | free => exact absurd (.inr storage) capturable
      | global => trivial
      | builtin => exact after.builtin (storage ▸ slot)

theorem Roomy.enter (block : Bool) : (table.enter block).Roomy := by
  refine ⟨(sound_change roomy.sound (.enter block)).1, ⟨fun name _ _ bound => ?_, roomy.locals⟩,
    roomy.builtin⟩
  change ({} : Std.HashMap String Nat)[name]? = _ at bound
  simp at bound

theorem Roomy.leave : table.leave.Roomy := by
  refine ⟨(sound_change roomy.sound .leave).1, ?_, table.symbols_leave ▸ roomy.builtin⟩
  rw [SymbolTable.leave]
  split
  next current outer around =>
    have fit := roomy.locals
    rw [chain, around] at fit
    exact fit.2
  next => exact roomy.locals

end

/-! ## What is known of a table -/

/-- The variables that have been defined, and the symbols of those that are hidden. -/
structure Ledger where
  known : List Variable := []
  hidden : List Nat := []
  /-- The table is that of a module, which has no global variables. -/
  module : Bool := false

/-- A table in which local variables are bound in their own scopes, and hidden ones nowhere. -/
structure Keeps (table : SymbolTable) (ledger : Ledger) : Prop where
  slots : SlotInvariant table ledger.known
  sound : SoundChain table.symbols table.chain
  bound {scope : Scope} {name : String} {id index : Nat} : scope ∈ table.chain →
    scope.names[name]? = some id → slotOf? table.symbols id = some (.local_, index) →
    ⟨scope.number, id⟩ ∈ ledger.known
  apart {scope : Scope} {name : String} {id : Nat} : scope ∈ table.chain →
    scope.names[name]? = some id → id ∉ ledger.hidden
  made {id : Nat} : id ∈ ledger.hidden → id < table.symbols.size
  builtin {id index : Nat} : slotOf? table.symbols id = some (.builtin, index) →
    index < Builtin.all.length
  inside : ledger.module = true → table.inFunction = true ∧
    ∀ id index, slotOf? table.symbols id ≠ some (.global, index)

theorem SlotsFit.locals {known : List Variable} (fit : SlotsFit (slotOf? symbols) known chain)
    (bound : ∀ {scope : Scope} {name : String} {id index}, scope ∈ chain →
      scope.names[name]? = some id →
      slotOf? symbols id = some (.local_, index) → ⟨scope.number, id⟩ ∈ known) :
        LocalsFit symbols chain := by
  induction chain with
  | nil => trivial
  | cons scope outer ih =>
    refine ⟨fun name id index here slot => ?_, ih fit.2 fun member =>
      bound (mem_cons_of_mem _ member)⟩
    have used : InUse known (scope :: outer) ⟨scope.number, id⟩ :=
      ⟨bound (mem_cons_self ..) here slot, scope, mem_functionScopes_cons scope outer, rfl⟩
    cases inside : chainInFunction (scope :: outer) with
    | true =>
      obtain ⟨index', slot', -, most⟩ := fit.1.local_ inside used
      cases slot.symm.trans slot'
      exact le_localsOf inside fun here => most _ _ here
    | false =>
      obtain ⟨index', slot'⟩ := fit.1.global inside used
      cases slot.symm.trans slot'

theorem Keeps.roomy {ledger : Ledger} (keeps : table.Keeps ledger) : table.Roomy :=
  ⟨keeps.sound, SlotsFit.locals keeps.slots.fit keeps.bound, keeps.builtin⟩

end SymbolTable

end Skiff
