import Skiff.Proofs.Scope.Capture

/-!
# Slots of variables

A variable keeps its slot as long as its scope is open: no other variable of the same function gets
the slot before. When a block is left, its slots are free again. Global variables keep their slots
for good.
-/

namespace Skiff

open List Nat

namespace SymbolTable

/-- A variable: the number of the scope in which it was defined, and its symbol. -/
structure Variable where
  scope : Nat
  id : Nat
  deriving DecidableEq, Repr

/-- The variable that a change defines. -/
def newVariable? (table : SymbolTable) : TableChange → Option Variable
  | .define name => some ⟨table.current.number, (table.define name).2⟩
  | .defineHidden name => some ⟨table.current.number, (table.defineHidden name).2⟩
  | _ => none

/-- The variables that changes define, the last one first, before those that are known. -/
def newVariables (table : SymbolTable) : List TableChange → List Variable → List Variable
  | [], known => known
  | change :: rest, known =>
    (table.change change).newVariables rest ((table.newVariable? change).toList ++ known)

/-- Where a symbol lives. -/
def slotOf? (symbols : Array Symbol) (id : Nat) : Option (Storage × Nat) :=
  symbols[id]?.map fun symbol => (symbol.storage, symbol.index)

/-! ## What changes do to slots -/

theorem slotOf?_push (symbols : Array Symbol) (symbol : Symbol) (id : Nat) :
    slotOf? (symbols.push symbol) id =
      if id = symbols.size then some (symbol.storage, symbol.index) else slotOf? symbols id := by
  rw [slotOf?, Array.getElem?_push]
  split <;> rfl

variable {symbols : Array Symbol} {slot' : Nat → Option (Storage × Nat)} {new : Variable}
  {table : SymbolTable}

variable {known : List Variable} {chain outer chain' : List Scope}
  {slot : Nat → Option (Storage × Nat)} {scope : Scope} {id count : Nat} {symbol : Symbol}

theorem slotOf?_lt {slot : Storage × Nat} (known : slotOf? symbols id = some slot) :
    id < symbols.size := by
  obtain ⟨symbol, made, -⟩ := Option.map_eq_some_iff.1 known
  exact (Array.getElem?_eq_some_iff.1 made).1

theorem slotOf?_markAssigned (table : SymbolTable) (id other : Nat) :
    slotOf? (table.markAssigned id).symbols other = slotOf? table.symbols other := by
  rw [slotOf?, markAssigned, Array.getElem?_modify]
  split
  · rw [Option.map_map]
    rfl
  · rfl

theorem slotOf?_of_made (made : symbols[id]? = some symbol) :
    slotOf? symbols id = some (symbol.storage, symbol.index) := by
  rw [slotOf?, made, Option.map_some]

/-- A symbol more, which lives in the next slot. -/
theorem slotOf?_take {symbols' : Array Symbol}
    (pushed : symbols' = table.takeSlot.1.symbols.push symbol)
    (storage : symbol.storage = table.takeSlot.2.1) (index : symbol.index = table.takeSlot.2.2)
    (id : Nat) :
    slotOf? symbols' id = if id = table.symbols.size
      then some (if table.inFunction then .local_ else .global, nextSlot table.chain)
      else slotOf? table.symbols id := by
  rw [pushed, symbols_takeSlot, slotOf?_push, storage, index, takeSlot_eq]

/-- A scope with the same slots as another, of which at least as many were ever in use. -/
structure SlotsGrow (scope scope' : Scope) : Prop where
  number : scope'.number = scope.number
  block : scope'.block = scope.block
  defined : scope'.defined = scope.defined
  most : scope.most ≤ scope'.most

theorem slotsGrow_refl (chain : List Scope) : List.Forall₂ SlotsGrow chain chain :=
  List.forall₂_same.2 fun _ _ => ⟨rfl, rfl, rfl, Nat.le_refl _⟩

theorem slotsGrow_noteSlots (count : Nat) (chain : List Scope) :
    List.Forall₂ SlotsGrow chain (noteSlots count chain) :=
  forall₂_noteSlots (fun _ => ⟨rfl, rfl, rfl, Nat.le_refl _⟩)
    (fun _ => ⟨rfl, rfl, rfl, Nat.le_max_left _ _⟩) chain

theorem le_most_noteSlots {function : Scope}
    (here : functionChain (noteSlots count chain) = function :: outer) : count ≤ function.most := by
  induction chain with
  | nil => cases here
  | cons first rest ih =>
    rw [noteSlots, functionChain] at here
    split at here
    · exact ih here
    · cases here
      exact Nat.le_max_right _ _

/-- A look-up leaves slots as they are, and makes free symbols at most. -/
theorem slotsGrow_resolveIn {name : String} {inner : Bool} {found : Resolution}
    (looked : LookUp name symbols chain inner found) :
    Forall₂ SlotsGrow chain found.scopes ∧ symbols.size ≤ found.symbols.size ∧
      (∀ id < symbols.size, slotOf? found.symbols id = slotOf? symbols id) ∧
      ∀ id ≥ symbols.size, ∀ storage index, slotOf? found.symbols id = some (storage, index) →
        storage = .free := by
  induction looked with
  | here =>
    exact ⟨slotsGrow_refl _, Nat.le_refl _, fun _ _ => rfl, fun _ outside _ _ slot =>
      absurd (slotOf?_lt slot) (Nat.not_lt.2 outside)⟩
  | captured _ _ _ _ ih =>
    obtain ⟨grow, size, old, free⟩ := ih
    simp only [capture, Array.size_push, slotOf?_push]
    refine ⟨.cons ⟨rfl, rfl, rfl, Nat.le_refl _⟩ grow, Nat.le_succ_of_le size,
      fun id inside => ?_, fun id outside storage index slot => ?_⟩
    · rw [if_neg (by omega), old id inside]
    · split at slot
      · cases slot
        rfl
      · exact free id outside storage index slot
  | passed _ _ _ ih =>
    obtain ⟨grow, rest⟩ := ih
    exact ⟨.cons ⟨rfl, rfl, rfl, Nat.le_refl _⟩ grow, rest⟩

theorem nextSlot_grow (grow : Forall₂ SlotsGrow chain chain') :
    nextSlot chain' = nextSlot chain := by
  induction grow with
  | nil => rfl
  | cons here _ ih => rw [nextSlot, nextSlot, here.block, here.defined, ih]

/-! ## Slots that fit -/

/-- A variable of the innermost function of a chain whose scope is open. -/
def InUse (known : List Variable) (chain : List Scope) (v : Variable) : Prop :=
  v ∈ known ∧ ∃ scope ∈ functionScopes chain, v.scope = scope.number

/-- How many slots are counted at the outermost scope. -/
def atRoot : List Scope → Nat
  | [] => 0
  | [root] => root.defined
  | _ :: outer => atRoot outer

/-- The variables in use have slots of their own below the next one, and their function has enough
slots for them. Outside of functions they are global, and slots are counted at the outermost
scope. -/
structure InSlots (slot : Nat → Option (Storage × Nat)) (known : List Variable)
    (chain : List Scope) : Prop where
  local_ {v : Variable} : chainInFunction chain = true → InUse known chain v →
    ∃ index, slot v.id = some (.local_, index) ∧ index < nextSlot chain ∧
      ∀ function rest, functionChain chain = function :: rest → index < function.most
  distinct {v w : Variable} : chainInFunction chain = true → InUse known chain v →
    InUse known chain w → slot v.id = slot w.id → v.id = w.id
  global {v : Variable} : chainInFunction chain = false → InUse known chain v →
    ∃ index, slot v.id = some (.global, index)
  counted : chainInFunction chain = false → nextSlot chain = atRoot chain

/-- Seen from each scope of a chain, variables have slots. -/
def SlotsFit (slot : Nat → Option (Storage × Nat)) (known : List Variable) : List Scope → Prop
  | [] => True
  | scope :: outer => InSlots slot known (scope :: outer) ∧ SlotsFit slot known outer

theorem SlotsFit.inSlots (fit : SlotsFit slot known chain) : InSlots slot known chain := by
  cases chain with
  | nil =>
    exact ⟨fun inside => absurd inside Bool.false_ne_true, fun inside =>
      absurd inside Bool.false_ne_true,
      fun _ used => used.2.elim fun _ here => absurd here.1 not_mem_nil, fun _ => rfl⟩
  | cons => exact fit.1

theorem mem_of_functionScopes (member : scope ∈ functionScopes chain) : scope ∈ chain := by
  induction chain with
  | nil => cases member
  | cons first rest ih =>
    rw [functionScopes] at member
    split at member
    · rcases mem_cons.1 member with rfl | later
      · exact mem_cons_self ..
      · exact mem_cons_of_mem _ (ih later)
    · exact mem_singleton.1 member ▸ mem_cons_self ..

section
variable {v : Variable}

theorem InUse.same {relation : Scope → Scope → Prop}
    (same : ∀ {scope scope'}, relation scope scope' → scope'.block = scope.block ∧
    scope'.number = scope.number)
    (related : Forall₂ relation chain chain') (used : InUse known chain' v) :
      InUse known chain v := by
  obtain ⟨member, scope', there, home⟩ := used
  obtain ⟨scope, here, both⟩ :=
    exists_of_mem_forall₂ (functionScopes_related (fun both => (same both).1) related) there
  exact ⟨member, scope, here, home.trans (same both).2⟩

theorem InUse.old (used : InUse (new :: known) chain v) : v = new ∨ InUse known chain v := by
  obtain ⟨member, home⟩ := used
  exact (mem_cons.1 member).imp_right fun member => ⟨member, home⟩

/-- No variable has been defined in a new scope. -/
theorem InUse.around (nowhere : ∀ v ∈ known, v.scope ≠ scope.number)
    (used : InUse known (scope :: outer) v) : scope.block = true ∧ InUse known outer v := by
  obtain ⟨member, around, here, home⟩ := used
  rw [functionScopes] at here
  split at here
  · rcases mem_cons.1 here with rfl | later
    · exact absurd home (nowhere v member)
    · exact ⟨‹_›, member, around, later, home⟩
  · rw [mem_singleton.1 here] at home
    exact absurd home (nowhere v member)

end

theorem atRoot_grow (grow : List.Forall₂ SlotsGrow chain chain') :
    atRoot chain' = atRoot chain := by
  induction grow with
  | nil => rfl
  | cons here later ih =>
    cases later with
    | nil => exact here.defined
    | cons => exact ih

theorem InSlots.mono (slots : InSlots slot known chain) (same : ∀ v ∈ known, slot' v.id = slot v.id)
    (grow : Forall₂ SlotsGrow chain chain') : InSlots slot' known chain' := by
  have before {v : Variable} (used : InUse known chain' v) : InUse known chain v :=
    used.same (fun grows => ⟨grows.block, grows.number⟩) grow
  have inside := chainInFunction_related SlotsGrow.block grow
  refine ⟨fun {v} within used => ?_,
    fun {v w} within left right equal => ?_, fun {v} outside used => ?_, fun outside => ?_⟩
  · obtain ⟨index, place, less, most⟩ := slots.local_ (inside ▸ within) (before used)
    refine ⟨index, (same v used.1).trans place, nextSlot_grow grow ▸ less,
      fun function' rest' here => ?_⟩
    have functions := functionChain_related SlotsGrow.block grow
    rw [here] at functions
    obtain ⟨function, rest, grows, -, here⟩ := forall₂_cons_right_iff.1 functions
    exact Nat.lt_of_lt_of_le (most function rest here) grows.most
  · rw [same v left.1, same w right.1] at equal
    exact slots.distinct (inside ▸ within) (before left) (before right) equal
  · rw [same v used.1]
    exact slots.global (inside ▸ outside) (before used)
  · rw [nextSlot_grow grow, atRoot_grow grow]
    exact slots.counted (inside ▸ outside)

theorem SlotsFit.mono (fit : SlotsFit slot known chain) (same : ∀ v ∈ known, slot' v.id = slot v.id)
    (grow : Forall₂ SlotsGrow chain chain') : SlotsFit slot' known chain' := by
  induction grow with
  | nil => trivial
  | cons here later ih => exact ⟨fit.1.mono same (.cons here later), ih fit.2⟩

/-- Scopes are numbered from the outermost one inwards. -/
def Numbered : Nat → List Scope → Prop
  | _, [] => True
  | bound, scope :: outer => scope.number < bound ∧ Numbered scope.number outer

theorem Numbered.lt {bound : Nat} (numbered : Numbered bound chain) (member : scope ∈ chain) :
    scope.number < bound := by
  induction chain generalizing bound with
  | nil => cases member
  | cons first rest ih =>
    rcases mem_cons.1 member with rfl | later
    · exact numbered.1
    · exact Nat.lt_trans (ih numbered.2 later) numbered.1

theorem Numbered.same {bound : Nat} (numbered : Numbered bound chain)
    (same : Forall₂ (fun scope scope' => scope'.number = scope.number) chain chain') :
    Numbered bound chain' := by
  induction same generalizing bound with
  | nil => trivial
  | cons here _ ih => exact ⟨here ▸ numbered.1, here ▸ ih numbered.2⟩

/-- A variable of another scope changes nothing. -/
theorem SlotsFit.cons (fit : SlotsFit slot known chain)
    (other : ∀ scope ∈ chain, scope.number ≠ new.scope) : SlotsFit slot (new :: known) chain := by
  induction chain with
  | nil => trivial
  | cons scope outer ih =>
    have away {v : Variable} (used : InUse (new :: known) (scope :: outer) v) :
        InUse known (scope :: outer) v := by
      rcases used.old with rfl | used
      · obtain ⟨-, around, here, home⟩ := used
        exact absurd home.symm (other around (mem_of_functionScopes here))
      · exact used
    exact ⟨⟨fun inside used => fit.1.local_ inside (away used), fun inside left right =>
      fit.1.distinct inside (away left) (away right), fun outside used =>
        fit.1.global outside (away used),
      fit.1.counted⟩, ih fit.2 fun scope member => other scope (mem_cons_of_mem _ member)⟩

/-! ## Global variables -/

theorem atRoot_countAtRoot (some : chain ≠ []) : atRoot (countAtRoot chain) = atRoot chain + 1 := by
  fun_induction countAtRoot chain with
  | case1 => exact absurd rfl some
  | case2 root => rfl
  | case3 scope outer more ih =>
    have some' := ne_nil_of_recounted (recounted_countAtRoot outer) more
    cases outer with
    | nil => exact absurd rfl more
    | cons next rest =>
      cases counted : countAtRoot (next :: rest) with
      | nil => exact absurd counted some'
      | cons _ _ => rw [counted] at ih; exact ih more

/-- Outside of functions all scopes but the outermost one are blocks. -/
theorem block_of_outside (some : outer ≠ []) (outside : chainInFunction (scope :: outer) = false) :
    scope.block = true ∧ chainInFunction outer = false := by
  rw [chainInFunction] at outside
  split at outside
  · exact ⟨‹_›, outside⟩
  · cases outer with
    | nil => exact absurd rfl some
    | cons => cases outside

theorem nextSlot_countAtRoot (some : chain ≠ []) (outside : chainInFunction chain = false) :
    nextSlot (countAtRoot chain) = nextSlot chain + 1 := by
  fun_induction countAtRoot chain with
  | case1 => exact absurd rfl some
  | case2 root =>
    simp only [nextSlot]
    split <;> omega
  | case3 scope outer more ih =>
    obtain ⟨block, around⟩ := block_of_outside more outside
    rw [nextSlot, nextSlot, if_pos block, if_pos block, ih more around]
    omega

/-- A global variable, outside of functions. -/
theorem SlotsFit.countAtRoot {index : Nat} (fit : SlotsFit slot known chain)
    (outside : chainInFunction chain = false) (same : ∀ v ∈ known, slot' v.id = slot v.id)
    (taken : slot' new.id = some (.global, index)) :
      SlotsFit slot' (new :: known) (countAtRoot chain) := by
  have here {chain : List Scope} (some : chain ≠ []) (outside : chainInFunction chain = false)
      (slots : InSlots slot known chain) :
        InSlots slot' (new :: known) (SymbolTable.countAtRoot chain) := by
    have recounted := recounted_countAtRoot chain
    have within : chainInFunction (SymbolTable.countAtRoot chain) ≠ true := by
      rw [chainInFunction_related Recounted.block recounted, outside]
      exact Bool.false_ne_true
    refine ⟨fun inside => absurd inside within, fun inside =>
      absurd inside within, fun {v} _ used => ?_, fun _ => ?_⟩
    · rcases used.old with rfl | used
      · exact ⟨index, taken⟩
      · rw [same v used.1]
        exact slots.global outside (used.same (fun same => ⟨same.block, same.number⟩) recounted)
    · rw [nextSlot_countAtRoot some outside, atRoot_countAtRoot some, slots.counted outside]
  fun_induction SymbolTable.countAtRoot chain with
  | case1 => trivial
  | case2 root => exact ⟨here (cons_ne_nil _ _) outside fit.1, trivial⟩
  | case3 scope outer some ih =>
    have whole := here (cons_ne_nil _ _) outside fit.1
    rw [SymbolTable.countAtRoot] at whole
    · exact ⟨whole, ih fit.2 (block_of_outside some outside).2⟩
    · exact some

/-- Global variables have different slots, all of which are counted. -/
structure GlobalsFit (slot : Nat → Option (Storage × Nat)) (count : Nat) : Prop where
  lt {id index : Nat} : slot id = some (.global, index) → index < count
  distinct {id id' index : Nat} : slot id = some (.global, index) →
    slot id' = some (.global, index) → id = id'

theorem GlobalsFit.mono (globals : GlobalsFit slot count)
    (back : ∀ id index, slot' id = some (.global, index) → slot id = some (.global, index)) :
    GlobalsFit slot' count :=
  ⟨fun here => globals.lt (back _ _ here), fun here there =>
    globals.distinct (back _ _ here) (back _ _ there)⟩

/-! ## The invariant -/

/-- What is known of a table in which variables have been defined. -/
structure SlotInvariant (table : SymbolTable) (known : List Variable) : Prop where
  numbered : Numbered table.opened table.chain
  made {v : Variable} : v ∈ known → v.scope < table.opened ∧ v.id < table.symbols.size
  complete {id index : Nat} : slotOf? table.symbols id = some (.local_, index) →
    ∃ v ∈ known, v.id = id
  fit : SlotsFit (slotOf? table.symbols) known table.chain
  globals : GlobalsFit (slotOf? table.symbols) (atRoot table.chain)

theorem slotInvariant_empty : SlotInvariant {} [] := by
  refine ⟨⟨Nat.zero_lt_one, trivial⟩, nofun, ?_,
    ⟨⟨nofun, nofun, fun _ used => absurd used.1 not_mem_nil, fun _ => rfl⟩, trivial⟩, ?_, ?_⟩
  all_goals intros; simp_all [slotOf?]

/-- A change that defines nothing, and leaves the slots of the open scopes as they are. -/
theorem SlotInvariant.grow {table' : SymbolTable}
    (before : SlotInvariant table known) (opened : table'.opened = table.opened)
    (grow : Forall₂ SlotsGrow table.chain table'.chain)
    (size : table.symbols.size ≤ table'.symbols.size)
    (old : ∀ id < table.symbols.size, slotOf? table'.symbols id = slotOf? table.symbols id)
    (new : ∀ id ≥ table.symbols.size, ∀ storage index, slotOf? table'.symbols id = some
      (storage, index) → storage ≠ .local_ ∧ storage ≠ .global) : SlotInvariant table' known := by
  have back {id index : Nat} {storage : Storage}
      (slot : slotOf? table'.symbols id = some (storage, index))
      (variable_ : storage = .local_ ∨ storage = .global) :
      slotOf? table.symbols id = some (storage, index) := by
    by_cases inside : id < table.symbols.size
    · rwa [old id inside] at slot
    · have plain := new id (Nat.le_of_not_lt inside) storage index slot
      rcases variable_ with isLocal | isGlobal
      · exact absurd isLocal plain.1
      · exact absurd isGlobal plain.2
  refine ⟨?_, fun member => ?_, fun slot => before.complete (back slot (.inl rfl)), ?_, ?_⟩
  · rw [opened]
    exact before.numbered.same (grow.imp fun _ _ => SlotsGrow.number)
  · rw [opened]
    exact ⟨(before.made member).1, Nat.lt_of_lt_of_le (before.made member).2 size⟩
  · exact before.fit.mono (fun v member => old v.id (before.made member).2) grow
  · rw [atRoot_grow grow]
    exact before.globals.mono fun _ _ slot => back slot (.inr rfl)

/-- A variable of the current scope, inside of a function. -/
theorem SlotsFit.define (fit : SlotsFit slot known (scope :: outer))
    (inside : chainInFunction (scope :: outer) = true) (numbered : Numbered scope.number outer)
    (same : ∀ v ∈ known, slot' v.id = slot v.id) (home : new.scope = scope.number)
    (taken : slot' new.id = some (.local_, nextSlot (scope :: outer))) :
    SlotsFit slot' (new :: known) (noteSlots (nextSlot (scope :: outer) + 1)
      ({ scope with defined := scope.defined + 1 } :: outer)) := by
  have next : nextSlot ({ scope with defined := scope.defined + 1 } :: outer) = nextSlot
      (scope :: outer) + 1 := by
    simp only [nextSlot]
    split <;> omega
  have grow := slotsGrow_noteSlots (nextSlot (scope :: outer) + 1)
    ({ scope with defined := scope.defined + 1 } :: outer)
  have most {function : Scope} {rest : List Scope} (here : functionChain
      (noteSlots (nextSlot (scope :: outer) + 1)
        ({ scope with defined := scope.defined + 1 } :: outer)) =
        function :: rest) : nextSlot (scope :: outer) + 1 ≤ function.most := le_most_noteSlots here
  generalize noteSlots (nextSlot (scope :: outer) + 1)
    ({ scope with defined := scope.defined + 1 } :: outer) = chain at grow most ⊢
  have within : chainInFunction chain = true :=
    (chainInFunction_related SlotsGrow.block grow).trans inside
  have high := (nextSlot_grow grow).trans next
  have before {v : Variable} (used : InUse known chain v) : InUse known (scope :: outer) v := by
    have counted :
        Forall₂ Recounted (scope :: outer) ({ scope with defined := scope.defined + 1 } :: outer) :=
      .cons ⟨rfl, rfl, rfl, rfl⟩ (recounted_refl _)
    exact (used.same (fun grows => ⟨grows.block, grows.number⟩) grow).same
      (fun recounted => ⟨recounted.block, recounted.number⟩) counted
  have old {v : Variable} (used : InUse known chain v) :
      ∃ index, slot' v.id = some (.local_, index) ∧ index < nextSlot (scope :: outer) := by
    obtain ⟨index, place, less, -⟩ := fit.1.local_ inside (before used)
    exact ⟨index, (same v used.1).trans place, less⟩
  have different {v : Variable} (used : InUse known chain v) : slot' v.id ≠ slot' new.id := by
    obtain ⟨index, place, less⟩ := old used
    rw [place, taken]
    simp only [ne_eq, Option.some.injEq, Prod.mk.injEq, true_and]
    omega
  have slots : InSlots slot' (new :: known) chain := by
    refine ⟨fun {v} _ used => ?_, fun {v w} _ left right equal => ?_,
      fun outside => absurd (within.symm.trans outside) (by simp),
      fun outside => absurd (within.symm.trans outside) (by simp)⟩
    · have below : ∃ index, slot' v.id = some (.local_, index) ∧
          index < nextSlot (scope :: outer) + 1 := by
        rcases used.old with rfl | used
        · exact ⟨_, taken, lt_succ_self _⟩
        · obtain ⟨index, place, less⟩ := old used
          exact ⟨index, place, lt_succ_of_lt less⟩
      obtain ⟨index, place, less⟩ := below
      exact ⟨index, place, high ▸ less, fun function rest here =>
        Nat.lt_of_lt_of_le less (most here)⟩
    · rcases left.old with rfl | old_ <;> rcases right.old with rfl | old'
      · rfl
      · exact absurd equal.symm (different old')
      · exact absurd equal (different old_)
      · rw [same v old_.1, same w old'.1] at equal
        exact fit.1.distinct inside (before old_) (before old') equal
  cases grow with
  | cons here later =>
    refine ⟨slots, (fit.2.mono same later).cons fun around member => ?_⟩
    have less := (numbered.same (later.imp fun _ _ => SlotsGrow.number)).lt member
    omega

theorem outer_ne_nil_of_inFunction (inside : chainInFunction (scope :: outer) = true) :
    outer ≠ [] := by
  rintro rfl
  rw [chainInFunction] at inside
  split at inside <;> cases inside

section
variable (before : SlotInvariant table known)
include before

/-- A variable takes the next slot. -/
theorem SlotInvariant.define {table' : SymbolTable} (opened : table'.opened = table.opened)
    (grow : Forall₂ SlotsGrow table.takeSlot.1.chain table'.chain)
    (symbols : table'.symbols = table.takeSlot.1.symbols.push symbol)
    (storage : symbol.storage = table.takeSlot.2.1) (index : symbol.index = table.takeSlot.2.2) :
    SlotInvariant table' (⟨table.current.number, table.symbols.size⟩ :: known) := by
  have slot := slotOf?_take symbols storage index
  have same (v : Variable) (member : v ∈ known) :
      slotOf? table'.symbols v.id = slotOf? table.symbols v.id := by
    rw [slot, if_neg (Nat.ne_of_lt (before.made member).2)]
  have numbered : Numbered table.opened table'.chain :=
    (before.numbered.same (table.recounted_takeSlot.imp fun _ _ => Recounted.number)).same
      (grow.imp fun _ _ => SlotsGrow.number)
  have made {v : Variable}
      (member : v ∈ (⟨table.current.number, table.symbols.size⟩ : Variable) :: known) :
      v.scope < table'.opened ∧ v.id < table'.symbols.size := by
    rw [opened, symbols, Array.size_push, symbols_takeSlot]
    rcases mem_cons.1 member with rfl | member
    · exact ⟨before.numbered.1, lt_succ_self _⟩
    · exact ⟨(before.made member).1, lt_succ_of_lt (before.made member).2⟩
  have complete {id index : Nat} (here : slotOf? table'.symbols id = some (.local_, index)) :
      ∃ v ∈ (⟨table.current.number, table.symbols.size⟩ : Variable) :: known, v.id = id := by
    rw [slot] at here
    split at here
    next new => exact ⟨_, mem_cons_self .., new.symm⟩
    next =>
      obtain ⟨v, member, found⟩ := before.complete here
      exact ⟨v, mem_cons_of_mem _ member, found⟩
  rw [chain_takeSlot, countOne] at grow
  by_cases inside : table.inFunction = true
  · rw [if_pos inside] at grow
    refine ⟨opened ▸ numbered, made, complete, ?_, ?_⟩
    · refine SlotsFit.mono (SlotsFit.define before.fit inside before.numbered.2 same rfl ?_)
        (fun _ _ => rfl) grow
      rw [slot, if_pos rfl, if_pos inside]
      rfl
    · have count : atRoot table'.chain = atRoot table.chain := by
        rw [atRoot_grow grow, atRoot_grow (slotsGrow_noteSlots _ _), chain]
        have some : table.outer ≠ [] := outer_ne_nil_of_inFunction inside
        cases outer : table.outer with
        | nil => exact absurd outer some
        | cons => rfl
      rw [count]
      refine before.globals.mono fun id index here => ?_
      rw [slot, if_pos inside] at here
      split at here
      · cases here
      · exact here
  · have outside : chainInFunction table.chain = false := by simpa [inFunction] using inside
    have taken : slotOf? table'.symbols table.symbols.size = some
        (.global, nextSlot table.chain) := by
      rw [slot, if_pos rfl, if_neg inside]
    rw [if_neg inside] at grow
    refine ⟨opened ▸ numbered, made, complete,
      ((before.fit.countAtRoot outside same taken).mono (fun _ _ => rfl)
        (slotsGrow_noteSlots _ _)).mono (fun _ _ => rfl) grow, ?_⟩
    have count : atRoot table'.chain = atRoot table.chain + 1 := by
      rw [atRoot_grow grow, atRoot_grow (slotsGrow_noteSlots _ _),
        atRoot_countAtRoot table.chain_ne_nil]
    have next := before.fit.inSlots.counted outside
    rw [count]
    refine ⟨fun {id index} here => ?_, fun {id id' index} here there => ?_⟩
    · rw [slot, if_neg inside] at here
      split at here
      · cases here
        omega
      · exact lt_succ_of_lt (before.globals.lt here)
    · rw [slot, if_neg inside] at here there
      split at here <;> split at there
      · omega
      · cases here
        have := before.globals.lt there
        omega
      · cases there
        have := before.globals.lt here
        omega
      · exact before.globals.distinct here there

theorem SlotInvariant.enter (block : Bool) : SlotInvariant (table.enter block) known := by
  have nowhere : ∀ v ∈ known, v.scope ≠ table.opened := fun v member =>
      Nat.ne_of_lt (before.made member).1
  have slots := before.fit.inSlots
  refine ⟨⟨lt_succ_self _, before.numbered⟩, fun member => ?_, before.complete, ⟨?_, before.fit⟩,
    before.globals⟩
  · exact ⟨lt_succ_of_lt (before.made member).1, (before.made member).2⟩
  · cases block with
    | false => exact ⟨fun _ used => absurd (used.around nowhere).1 Bool.false_ne_true,
        fun _ used => absurd (used.around nowhere).1 Bool.false_ne_true, nofun, nofun⟩
    | true =>
      exact ⟨fun inside used => slots.local_ inside (used.around nowhere).2,
        fun inside left right =>
        slots.distinct inside (left.around nowhere).2 (right.around nowhere).2, fun outside used =>
        slots.global outside (used.around nowhere).2, slots.counted⟩

theorem SlotInvariant.leave : SlotInvariant table.leave known := by
  cases around : table.outer with
  | nil =>
    have same : table.leave = table := by rw [SymbolTable.leave, around]
    rw [same]
    exact before
  | cons current outer =>
    have same : table.leave = { table with current, outer } := by rw [SymbolTable.leave, around]
    have chain : table.chain = table.current :: current :: outer := by
      rw [SymbolTable.chain, around]
    obtain ⟨numbered, made, complete, fit, globals⟩ := before
    rw [chain] at numbered fit globals
    rw [same]
    exact ⟨⟨Nat.lt_trans numbered.2.1 numbered.1, numbered.2.2⟩, made, complete, fit.2, globals⟩

theorem SlotInvariant.resolve (name : String) (inner : Bool) :
    SlotInvariant (table.resolve name inner).1 known := by
  rcases table.resolve_cases name inner with ⟨-, none⟩ | ⟨found, looked, -, chain', symbols'⟩
  · rw [none]
    exact before
  · obtain ⟨grow, size, old, free⟩ := slotsGrow_resolveIn looked
    rw [← symbols'] at size old free
    refine before.grow ?_ (chain' ▸ grow) size old fun id outside storage index here => ?_
    · rw [SymbolTable.resolve, resolveIn_iff.2 looked]
      exact opened_withChain _ _
    · simp [free id outside storage index here]

end

/-- Every change keeps the invariant, with the variable that it defines. -/
theorem SlotInvariant.change (before : SlotInvariant table known) (change : TableChange) :
    SlotInvariant (table.change change) ((table.newVariable? change).toList ++ known) := by
  have size : table.takeSlot.1.symbols = table.symbols := symbols_takeSlot table
  cases change with
  | define name =>
    have after : SlotInvariant (table.define name).1
        (⟨table.current.number, table.symbols.size⟩ :: known) :=
      before.define (opened_takeSlot table)
        (.cons ⟨rfl, rfl, rfl, Nat.le_refl _⟩ (slotsGrow_refl _))
        rfl rfl rfl
    rw [← size] at after
    exact after
  | defineHidden name =>
    have after : SlotInvariant (table.defineHidden name).1
        (⟨table.current.number, table.symbols.size⟩ :: known) :=
      before.define (opened_takeSlot table) (slotsGrow_refl _) rfl rfl rfl
    rw [← size] at after
    exact after
  | defineBuiltin index name =>
    have slot (id : Nat) : slotOf? (table.defineBuiltin index name).1.symbols id =
        if id = table.symbols.size then some (.builtin, index) else slotOf? table.symbols id :=
      slotOf?_push _ _ _
    refine before.grow rfl (.cons ⟨rfl, rfl, rfl, Nat.le_refl _⟩ (slotsGrow_refl _)) ?_
      (fun id inside => (slot id).trans (if_neg (Nat.ne_of_lt inside)))
        fun id outside storage place here => ?_
    · exact Nat.le_of_lt (Nat.lt_of_lt_of_eq (Nat.lt_succ_self _) (Array.size_push _).symm)
    · rw [SymbolTable.change, slot] at here
      split at here
      · cases here
        simp
      · exact absurd (slotOf?_lt here) (Nat.not_lt.2 outside)
  | markAssigned id =>
    refine before.grow rfl (slotsGrow_refl _) (Nat.le_of_eq Array.size_modify.symm)
      (fun other _ => slotOf?_markAssigned table id other) fun other outside storage index here =>
        ?_
    exact absurd (slotOf?_lt ((slotOf?_markAssigned table id other).symm.trans here))
      (Nat.not_lt.2 outside)
  | enter block => exact before.enter block
  | leave => exact before.leave
  | resolve name inner => exact before.resolve name inner

theorem SlotInvariant.after (before : SlotInvariant table known) (changes : List TableChange) :
    SlotInvariant (table.after changes) (table.newVariables changes known) := by
  induction changes generalizing table known with
  | nil => exact before
  | cons change changes ih => exact ih (before.change change)

theorem slotInvariant_builtins : SlotInvariant .withBuiltins [] :=
  foldlRecOn (motive := fun table => SlotInvariant table []) _ _ slotInvariant_empty
    fun _ before (builtin, number) _ => before.change (.defineBuiltin number builtin.name)

/-! ## Slots in use -/

theorem slotOf?_define (table : SymbolTable) (name : String) :
    slotOf? (table.define name).1.symbols (table.define name).2
      = some (if table.inFunction then .local_ else .global, nextSlot table.chain) :=
  (slotOf?_push _ _ _).trans (if_pos rfl)

/-- Slots of the variables of a table do not overlap. -/
structure SlotsApart (table : SymbolTable) (known : List Variable) : Prop where
  /-- Every local variable is known. -/
  complete {id : Nat} {symbol : Symbol} : table.symbols[id]? = some symbol →
    symbol.storage = .local_ → ∃ v ∈ known, v.id = id
  /-- The local variables of the current function that are in use have slots of their own, and the
  function has enough slots for them. -/
  local_ {v : Variable} {symbol : Symbol} : InUse known table.chain v →
    table.symbols[v.id]? = some symbol → symbol.storage = .local_ →
    (∀ function outer, functionChain table.chain = function :: outer →
      symbol.index < function.most) ∧
    ∀ w other, InUse known table.chain w → table.symbols[w.id]? = some other →
      other.storage = .local_ → v.id ≠ w.id → symbol.index ≠ other.index
  /-- A new variable gets none of the slots in use. -/
  fresh {v : Variable} {symbol : Symbol} {name : String} {new : Symbol} :
    InUse known table.chain v → table.symbols[v.id]? = some symbol → symbol.storage = .local_ →
    (table.define name).1.symbols[(table.define name).2]? = some new → new.index ≠ symbol.index
  /-- A slot of a block is given out again when the block has been left. -/
  again (first second : String) : table.inFunction = true →
    slotOf? ((table.enter true).define first).1.symbols ((table.enter true).define first).2
      = slotOf? (((table.enter true).define first).1.leave.define second).1.symbols
          (((table.enter true).define first).1.leave.define second).2
  /-- Global variables have slots of their own. -/
  global {id id' : Nat} {symbol symbol' : Symbol} : table.symbols[id]? = some symbol →
    table.symbols[id']? = some symbol' → symbol.storage = .global → symbol'.storage = .global →
    id ≠ id' → symbol.index ≠ symbol'.index

/-- The scopes around a block in which a variable was defined. -/
theorem slotsGrow_leave (table : SymbolTable) (name : String) (inside : table.inFunction = true) :
    Forall₂ SlotsGrow table.chain ((table.enter true).define name).1.leave.chain := by
  have within : (table.enter true).inFunction = true := inside
  have around : ((table.enter true).define name).1.outer
      = noteSlots (nextSlot (table.enter true).chain + 1) table.chain := by
    change (table.enter true).takeSlot.1.outer = _
    rw [takeSlot_eq, countOne, if_pos within]
    rfl
  have grow := slotsGrow_noteSlots (nextSlot (table.enter true).chain + 1) table.chain
  rw [← around] at grow
  rw [leave]
  split
  next current outer here =>
    rw [here] at grow
    exact grow
  next here =>
    rw [here] at grow
    cases grow

theorem SlotInvariant.apart (holds : SlotInvariant table known) : SlotsApart table known := by
  have inside {v : Variable} {symbol : Symbol} (used : InUse known table.chain v)
      (made : table.symbols[v.id]? = some symbol) (isLocal : symbol.storage = .local_) :
      chainInFunction table.chain = true := by
    by_contra outside
    obtain ⟨index, place⟩ := holds.fit.inSlots.global (by simpa using outside) used
    rw [slotOf?_of_made made, isLocal] at place
    cases place
  refine ⟨fun {id symbol} made isLocal => ?_, fun {v symbol} used made isLocal => ⟨?_, ?_⟩,
    fun {v symbol name new} used made isLocal defined => ?_, fun first second inFunction => ?_,
    fun {id id' symbol symbol'} made made' isGlobal isGlobal' different same => ?_⟩
  · exact holds.complete ((slotOf?_of_made made).trans (by rw [isLocal]))
  · obtain ⟨index, place, -, most⟩ := holds.fit.inSlots.local_ (inside used made isLocal) used
    rw [slotOf?_of_made made] at place
    obtain rfl : symbol.index = index := congrArg Prod.snd (Option.some.inj place)
    exact most
  · intro w other used' made' isLocal' different same
    refine different (holds.fit.inSlots.distinct (inside used made isLocal) used used' ?_)
    rw [slotOf?_of_made made, slotOf?_of_made made', isLocal, isLocal', same]
  · obtain ⟨index, place, less, -⟩ := holds.fit.inSlots.local_ (inside used made isLocal) used
    have next := slotOf?_define table name
    rw [slotOf?_of_made defined] at next
    rw [slotOf?_of_made made] at place
    have old : symbol.index = index := congrArg Prod.snd (Option.some.inj place)
    have new : new.index = nextSlot table.chain := congrArg Prod.snd (Option.some.inj next)
    omega
  · have grow := slotsGrow_leave table first inFunction
    have within : (table.enter true).inFunction = true := inFunction
    have left : ((table.enter true).define first).1.leave.inFunction = true :=
      (chainInFunction_related SlotsGrow.block grow).trans inFunction
    rw [slotOf?_define, slotOf?_define, if_pos within, if_pos left, nextSlot_grow grow]
    rfl
  · refine different (holds.globals.distinct ((slotOf?_of_made made).trans (by rw [isGlobal]))
      ((slotOf?_of_made made').trans ?_))
    rw [isGlobal', same]

/-- In every table that comes about by changes, slots do not overlap. -/
theorem slots_apart {start : SymbolTable} (initial : start.Initial) (changes : List TableChange) :
    SlotsApart (start.after changes) (start.newVariables changes []) := by
  have begins : SlotInvariant start [] := by
    cases initial with
    | empty => exact slotInvariant_empty
    | builtins => exact slotInvariant_builtins
  exact (begins.after changes).apart

/-- A function with two blocks in it, one behind the other, and a variable in each of the three. -/
theorem slots_apart_blocks :
    SlotsApart (({} : SymbolTable).after
      [.enter false, .define "a", .enter true, .define "b", .leave,
      .enter true, .define "c"]) [⟨3, 2⟩, ⟨2, 1⟩, ⟨1, 0⟩] :=
  slots_apart .empty [.enter false, .define "a", .enter true, .define "b", .leave, .enter true,
    .define "c"]

end SymbolTable

end Skiff
