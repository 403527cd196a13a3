import Skiff.Proofs.Scope.Changes

/-!
# Captured variables

A free symbol of a function stands for a symbol that the function captures. That symbol belongs to
the function directly around, as a local variable or as a free symbol of its own, so that following
captures outwards ends at a local variable. Every change of a table keeps this, look-ups included,
which capture what they find in every function on the way.
-/

namespace Skiff

open List Array Option

namespace SymbolTable

/-- The scopes of the innermost function of a chain: the blocks that are open in it, and its own. -/
def functionScopes : List Scope → List Scope
  | [] => []
  | scope :: outer => if scope.block then scope :: functionScopes outer else [scope]

/-- A chain from the scope of its innermost function on. -/
def functionChain : List Scope → List Scope
  | [] => []
  | scope :: outer => if scope.block then functionChain outer else scope :: outer

/-- A symbol that belongs to the innermost function of a chain: a local variable of one of its
scopes, or a symbol that the function has captured. -/
inductive Held (chain : List Scope) (id : Nat) (symbol : Symbol) : Prop where
  | local_ {scope : Scope} (storage : symbol.storage = .local_)
      (member : scope ∈ functionScopes chain) (bound : scope.names[symbol.name]? = some id)
  | free {scope : Scope} {outer : List Scope} (storage : symbol.storage = .free)
      (function : functionChain chain = scope :: outer)
        (bound : scope.names[symbol.name]? = some id)

/-- A free symbol of the innermost function of a chain stands for a symbol of the function around
it, which has the same name. -/
inductive Links (symbols : Array Symbol) : List Scope → Nat → List Scope → Nat → Prop where
  | mk {chain outer : List Scope} {scope : Scope} {id next : Nat} {symbol original : Symbol}
      (made : symbols[id]? = some symbol) (free : symbol.storage = .free)
      (function : functionChain chain = scope :: outer)
      (bound : scope.names[symbol.name]? = some id)
      (captured : scope.captured[symbol.index]? = some next)
      (origin : symbols[next]? = some original) (same : original.name = symbol.name)
      (held : Held outer next original) : Links symbols chain id outer next

/-- Following captures outwards leads from a free symbol to another symbol. -/
inductive Leads (symbols : Array Symbol) (target : Nat) : List Scope → Nat → Prop where
  | last {chain outer : List Scope} {id : Nat} (link : Links symbols chain id outer target) :
      Leads symbols target chain id
  | next {chain outer : List Scope} {id next : Nat} (link : Links symbols chain id outer next)
      (later : Leads symbols target outer next) : Leads symbols target chain id

/-! ## Symbols and scopes that stay -/

/-- Symbols are never taken away, and keep everything but whether they have a value. -/
def Kept (symbols symbols' : Array Symbol) : Prop :=
  ∀ ⦃id : Nat⦄ ⦃symbol : Symbol⦄, symbols[id]? = some symbol →
    ∃ symbol', symbols'[id]? = some symbol' ∧ symbol'.name = symbol.name ∧
      symbol'.storage = symbol.storage ∧ symbol'.index = symbol.index

/-- Symbols have been added to others. -/
def Extends (symbols symbols' : Array Symbol) : Prop :=
  ∀ ⦃id : Nat⦄ ⦃symbol : Symbol⦄, symbols[id]? = some symbol → symbols'[id]? = some symbol

variable {symbols symbols' : Array Symbol} {scope : Scope} {outer : List Scope}
  {table : SymbolTable} {symbol : Symbol} {id : Nat} {name : String} {inner : Bool}
  {found : Resolution}

theorem Extends.kept (extends_ : Extends symbols symbols') :
    Kept symbols symbols' :=
  fun _ _ made => ⟨_, extends_ made, rfl, rfl, rfl⟩

theorem extends_push (symbols : Array Symbol) (symbol : Symbol) :
    Extends symbols (symbols.push symbol) :=
  fun _ _ => getElem?_push_of_found

theorem kept_markAssigned (table : SymbolTable) (id : Nat) :
    Kept table.symbols (table.markAssigned id).symbols := by
  intro other symbol made
  rw [markAssigned, Array.getElem?_modify]
  split
  · exact ⟨{ symbol with assigned := true }, by rw [made]; rfl, rfl, rfl, rfl⟩
  · exact ⟨symbol, made, rfl, rfl, rfl⟩

theorem Kept.refl (symbols : Array Symbol) : Kept symbols symbols :=
  fun _ _ made => ⟨_, made, rfl, rfl, rfl⟩

theorem Kept.trans {symbols'' : Array Symbol} (first : Kept symbols symbols')
    (second : Kept symbols' symbols'') : Kept symbols symbols'' := by
  intro id symbol made
  obtain ⟨symbol', made', name, storage, index⟩ := first made
  obtain ⟨symbol'', made'', name', storage', index'⟩ := second made'
  exact ⟨symbol'', made'', name'.trans name, storage'.trans storage, index'.trans index⟩

section
variable {relation : Scope → Scope → Prop} (blocks : ∀ {scope scope'}, relation scope scope' →
    scope'.block = scope.block)
  {chain chain' : List Scope} (related : Forall₂ relation chain chain')
include blocks related

theorem functionScopes_related :
    Forall₂ relation (functionScopes chain) (functionScopes chain') := by
  induction related with
  | nil => exact .nil
  | cons here _ ih =>
    rw [functionScopes, functionScopes, blocks here]
    split
    · exact .cons here ih
    · exact .cons here .nil

theorem functionChain_related : Forall₂ relation (functionChain chain) (functionChain chain') := by
  induction related with
  | nil => exact .nil
  | cons here later ih =>
    rw [functionChain, functionChain, blocks here]
    split
    · exact ih
    · exact .cons here later

theorem chainInFunction_related : chainInFunction chain' = chainInFunction chain := by
  induction related with
  | nil => rfl
  | cons here later ih =>
    rw [chainInFunction, chainInFunction, blocks here, ih]
    cases later <;> rfl

end

/-- A scope that binds at least as much as another. -/
structure Widens (scope scope' : Scope) : Prop where
  block : scope'.block = scope.block
  names {name : String} {id : Nat} : scope.names[name]? = some id → scope'.names[name]? = some id

theorem Widens.refl (scope : Scope) : Widens scope scope := ⟨rfl, id⟩

theorem widens_refl (chain : List Scope) : Forall₂ Widens chain chain :=
  forall₂_same.2 fun scope _ => .refl scope

variable {chain : List Scope} {scope' : Scope}

theorem Recounted.widens (recounted : Recounted scope scope') : Widens scope scope' :=
  ⟨recounted.block, fun bound => recounted.names ▸ bound⟩

section
variable {chain chain' : List Scope} (wider : Forall₂ Widens chain chain')
include wider

theorem Held.widens {symbol symbol' : Symbol} (held : Held chain id symbol)
    (name : symbol'.name = symbol.name) (storage : symbol'.storage = symbol.storage) :
    Held chain' id symbol' := by
  cases held with
  | local_ isLocal member bound =>
    obtain ⟨scope', member', widens⟩ :=
      exists_of_mem_forall₂ (functionScopes_related Widens.block wider).flip member
    exact .local_ (storage.trans isLocal) member' (by rw [name]; exact widens.names bound)
  | free isFree function bound =>
    have functions := functionChain_related Widens.block wider
    rw [function] at functions
    obtain ⟨scope', outer', here, -, function'⟩ := forall₂_cons_left_iff.1 functions
    exact .free (storage.trans isFree) function' (by rw [name]; exact here.names bound)

end

/-! ## Sound scopes -/

/-- The bindings and captures of a scope inside of a chain are as they should be. -/
structure SoundScope (symbols : Array Symbol) (scope : Scope) (outer : List Scope) : Prop where
  /-- Symbols are bound under their names. -/
  bound {name : String} {id : Nat} : scope.names[name]? = some id →
    ∃ symbol, symbols[id]? = some symbol ∧ symbol.name = name
  /-- Only functions have free symbols, each at the place of what it captures. -/
  free {name : String} {id : Nat} {symbol : Symbol} : scope.names[name]? = some id →
    symbols[id]? = some symbol → symbol.storage = .free → scope.block = false ∧
      ∃ next original, scope.captured[symbol.index]? = some next ∧ symbols[next]? = some original ∧
        original.name = name
  /-- What is captured belongs to the function around. -/
  captured {index id : Nat} : scope.captured[index]? = some id →
    ∃ original, symbols[id]? = some original ∧ Held outer id original

/-- All scopes of a chain are sound. -/
def SoundChain (symbols : Array Symbol) : List Scope → Prop
  | [] => True
  | scope :: outer => SoundScope symbols scope outer ∧ SoundChain symbols outer

theorem SoundScope.mono {outer' : List Scope} (sound : SoundScope symbols scope outer)
    (kept : Kept symbols symbols') (block : scope'.block = scope.block)
    (names : scope'.names = scope.names)
    (captured : scope'.captured = scope.captured) (wider : Forall₂ Widens outer outer') :
    SoundScope symbols' scope' outer' := by
  refine ⟨fun bound => ?_, fun {name id symbol'} bound made free => ?_, fun here => ?_⟩
  · obtain ⟨symbol, made, same⟩ := sound.bound (names ▸ bound)
    obtain ⟨symbol', made', name, -⟩ := kept made
    exact ⟨symbol', made', name.trans same⟩
  · rw [names] at bound
    obtain ⟨symbol, made₀, -⟩ := sound.bound bound
    obtain ⟨_, made', -, storage, index⟩ := kept made₀
    cases made.symm.trans made'
    obtain ⟨function, next, original, here, origin, same⟩ :=
      sound.free bound made₀ (storage.symm.trans free)
    obtain ⟨original', origin', name, -⟩ := kept origin
    exact ⟨block.trans function, next, original', by rw [captured, index]; exact here, origin',
      name.trans same⟩
  · obtain ⟨original, origin, held⟩ := sound.captured (captured ▸ here)
    obtain ⟨original', origin', name, storage, -⟩ := kept origin
    exact ⟨original', origin', held.widens wider name storage⟩

/-- Soundness depends neither on which variables have values nor on how many slots are counted. -/
theorem SoundChain.mono {chain' : List Scope} (sound : SoundChain symbols chain)
    (kept : Kept symbols symbols') (recounted : Forall₂ Recounted chain chain') :
      SoundChain symbols' chain' := by
  induction recounted with
  | nil => trivial
  | cons here later ih =>
    exact ⟨sound.1.mono kept here.block here.names here.captured
      (later.imp fun _ _ => Recounted.widens), ih sound.2⟩

/-- A new symbol is bound under its name. If it is free, it stands for a capture. -/
theorem SoundScope.insert {captured : Array Nat} (sound : SoundScope symbols scope outer)
    (old : ∀ {index id : Nat}, scope.captured[index]? = some id → captured[index]? = some id)
    (free : symbol.storage = .free → scope.block = false ∧ ∃ next original,
      captured[symbol.index]? = some next ∧ symbols[next]? = some original ∧
        original.name = symbol.name)
    (held : ∀ {index id : Nat}, captured[index]? = some id →
      ∃ original, symbols[id]? = some original ∧ Held outer id original) :
    SoundScope (symbols.push symbol)
      { scope with captured, names := scope.names.insert symbol.name symbols.size } outer := by
  have here : SoundScope (symbols.push symbol) scope outer :=
    sound.mono (extends_push _ _).kept rfl rfl rfl (widens_refl _)
  refine ⟨fun {name id} bound => ?_,
    fun {name id found} bound made isFree => ?_, fun captured => ?_⟩
  · rw [Std.HashMap.getElem?_insert] at bound
    split at bound
    next same =>
      cases bound
      exact ⟨symbol, getElem?_push_size, eq_of_beq same⟩
    next => exact here.bound bound
  · rw [Std.HashMap.getElem?_insert] at bound
    split at bound
    next same =>
      cases bound
      cases made.symm.trans getElem?_push_size
      obtain ⟨function, next, original, captured, origin, name⟩ := free isFree
      exact ⟨function, next, original, captured, extends_push _ _ origin,
        name.trans (eq_of_beq same)⟩
    next =>
      obtain ⟨function, next, original, captured, rest⟩ := here.free bound made isFree
      exact ⟨function, next, original, old captured, rest⟩
  · obtain ⟨original, origin, holds⟩ := held captured
    exact ⟨original, extends_push _ _ origin, holds⟩

/-- A symbol that is no capture is added to the current scope. -/
theorem sound_addSymbol
    (sound : SoundChain table.symbols table.chain) (plain : symbol.storage ≠ .free) :
    SoundChain (table.addSymbol symbol).1.symbols (table.addSymbol symbol).1.chain :=
  ⟨sound.1.insert id (absurd · plain) sound.1.captured,
    sound.2.mono (extends_push _ _).kept (recounted_refl _)⟩

/-- What may be captured. -/
def Capturable (symbol : Symbol) : Prop := symbol.storage = .local_ ∨ symbol.storage = .free

/-- The symbol that a capture makes. -/
theorem made_capture (scope : Scope) (symbols : Array Symbol) (id : Nat) :
    (capture scope symbols id).2.1[(capture scope symbols id).2.2]?
      = some ⟨(symbols.getD id default).name, .free, scope.captured.size, false⟩ :=
  getElem?_push_size

theorem bound_capture (scope : Scope) (symbols : Array Symbol) (id : Nat) :
    (capture scope symbols id).1.names[(symbols.getD id default).name]?
      = some (capture scope symbols id).2.2 :=
  Std.HashMap.getElem?_insert_self

theorem captured_capture (scope : Scope) (symbols : Array Symbol) (id : Nat) :
    (capture scope symbols id).1.captured[scope.captured.size]? = some id :=
  getElem?_push_size

theorem getD_of_made (made : symbols[id]? = some symbol) : symbols.getD id default = symbol := by
  rw [getD_eq_getD_getElem?, made, getD_some]

/-- A symbol that belongs to the function around is captured. -/
theorem sound_capture (sound : SoundScope symbols scope outer) (function : scope.block = false)
    (made : symbols[id]? = some symbol) (held : Held outer id symbol) :
    SoundScope (capture scope symbols id).2.1 (capture scope symbols id).1 outer := by
  simp only [capture, getD_of_made made]
  refine sound.insert getElem?_push_of_found
    (fun _ => ⟨function, id, symbol, getElem?_push_size, made, rfl⟩) fun {index found} captured =>
      ?_
  rw [getElem?_push] at captured
  split at captured
  · cases captured
    exact ⟨symbol, made, held⟩
  · exact sound.captured captured

/-! ## Looking names up -/

/-- A scope binds a name to nothing that a look-up may stop at. -/
def PassedOver (symbols : Array Symbol) (name : String) (inner : Bool) (scope : Scope) : Prop :=
  ∀ id, scope.names[name]? = some id → visible (symbols.getD id default) inner = false

instance (symbol : Symbol) : Decidable (Capturable symbol) :=
  inferInstanceAs (Decidable (_ ∨ _))

/-- How a look-up in a chain of scopes ends. -/
inductive LookUp (name : String) (symbols : Array Symbol) :
    List Scope → Bool → Resolution → Prop where
  | here {scope : Scope} {outer : List Scope} {inner : Bool} {id : Nat}
      (bound : scope.names[name]? = some id)
      (seen : visible (symbols.getD id default) inner = true) :
      LookUp name symbols (scope :: outer) inner ⟨id, 0, scope :: outer, symbols⟩
  | captured {scope : Scope} {outer : List Scope} {inner : Bool} {further : Resolution}
      (missing : PassedOver symbols name inner scope) (away : LookUp name symbols outer true further)
      (function : scope.block = false)
      (capturable : Capturable (further.symbols.getD further.id default)) :
      LookUp name symbols (scope :: outer) inner ⟨(capture scope further.symbols further.id).2.2,
        further.depth + 1, (capture scope further.symbols further.id).1 :: further.scopes,
        (capture scope further.symbols further.id).2.1⟩
  | passed {scope : Scope} {outer : List Scope} {inner : Bool} {further : Resolution}
      (missing : PassedOver symbols name inner scope) (away : LookUp name symbols outer true further)
      (plain : ¬(scope.block = false ∧ Capturable (further.symbols.getD further.id default))) :
      LookUp name symbols (scope :: outer) inner
        ⟨further.id, further.depth + 1, scope :: further.scopes, further.symbols⟩

theorem passedOver_iff :
    PassedOver symbols name inner scope ↔
      (scope.names[name]?.filter fun id => visible (symbols.getD id default) inner) = none := by
  simp [PassedOver, filter_eq_none_iff]

theorem resolveIn_iff :
    resolveIn name symbols chain inner = some found ↔ LookUp name symbols chain inner found := by
  constructor
  · intro resolved
    induction chain generalizing inner found with
    | nil => cases resolved
    | cons scope outer ih =>
      cases here : scope.names[name]?.filter fun id => visible (symbols.getD id default) inner with
      | some id =>
        obtain ⟨bound, seen⟩ := filter_eq_some_iff.1 here
        simp only [resolveIn, here] at resolved
        cases resolved
        exact .here bound seen
      | none =>
        have missing := passedOver_iff.2 here
        cases away : resolveIn name symbols outer true with
        | none => simp only [resolveIn, here, away, reduceCtorEq] at resolved
        | some further =>
          simp only [resolveIn, here, away] at resolved
          by_cases both : scope.block = false ∧ Capturable (further.symbols.getD further.id default)
          · rw [if_pos (by simpa [Capturable] using both)] at resolved
            cases resolved
            exact .captured missing (ih away) both.1 both.2
          · rw [if_neg (by simpa [Capturable] using both)] at resolved
            cases resolved
            exact .passed missing (ih away) both
  · intro looked
    induction looked with
    | here bound seen => simp only [resolveIn, bound, filter_some, seen, if_true]
    | captured missing _ function capturable away =>
      simp only [resolveIn, passedOver_iff.1 missing, away]
      rw [if_pos (by simpa [Capturable, function] using capturable)]
    | passed missing _ plain away =>
      simp only [resolveIn, passedOver_iff.1 missing, away]
      rw [if_neg (by simpa [Capturable] using plain)]

theorem mem_functionScopes_cons (scope : Scope) (outer : List Scope) :
    scope ∈ functionScopes (scope :: outer) := by
  rw [functionScopes]
  split <;> simp

/-- What belongs to a function is seen from the blocks in it. -/
theorem Held.block (held : Held chain id symbol) (block : scope.block = true) :
      Held (scope :: chain) id symbol := by
  cases held with
  | local_ storage member bound =>
    refine .local_ storage ?_ bound
    rw [functionScopes, if_pos block]
    exact mem_cons_of_mem _ member
  | free storage function bound =>
    refine .free storage (Eq.trans ?_ function) bound
    rw [functionChain, if_pos block]

theorem functionChain_function (scope : Scope) (function : scope.block = false)
    (outer : List Scope) : functionChain (scope :: outer) = scope :: outer := by
  rw [functionChain, if_neg (by simp [function])]

/-- A name that is not bound may be captured without losing a binding. -/
theorem widens_capture
    (made : symbols'[id]? = some symbol) (missing : PassedOver symbols symbol.name true scope) :
    Widens scope (capture scope symbols' id).1 := by
  simp only [capture, getD_of_made made]
  refine ⟨rfl, fun {name other} bound => ?_⟩
  rw [Std.HashMap.getElem?_insert]
  split
  next same =>
    obtain rfl := eq_of_beq same
    have hidden := missing other bound
    simp [visible] at hidden
  next => exact bound

/-- A look-up keeps the scopes sound, and finds a symbol that belongs to the innermost function if
it can be captured at all. -/
theorem resolveIn_sound (sound : SoundChain symbols chain)
    (looked : LookUp name symbols chain inner found) :
    SoundChain found.symbols found.scopes ∧ Extends symbols found.symbols ∧
      (inner = true → Forall₂ Widens chain found.scopes) ∧
      ∃ symbol, found.symbols[found.id]? = some symbol ∧ symbol.name = name ∧
        (Capturable symbol → Held found.scopes found.id symbol) := by
  induction looked with
  | @here scope outer _ _ bound _ =>
    obtain ⟨symbol, made, rfl⟩ := sound.1.bound bound
    refine ⟨sound, fun _ _ => id, fun _ => widens_refl _, symbol, made, rfl, ?_⟩
    rintro (isLocal | isFree)
    · exact .local_ isLocal (mem_functionScopes_cons _ _) bound
    · obtain ⟨function, -⟩ := sound.1.free bound made isFree
      exact .free isFree (functionChain_function scope function outer) bound
  | @captured scope outer inner further missing _ function capturable ih =>
    obtain ⟨soundOuter, extended, wider, symbol, made, rfl, held⟩ := ih sound.2
    rw [getD_of_made made] at capturable
    have here : SoundScope further.symbols scope further.scopes :=
      sound.1.mono extended.kept rfl rfl rfl (wider rfl)
    have name : (further.symbols.getD further.id default).name = symbol.name := by
      rw [getD_of_made made]
    refine ⟨⟨sound_capture here function made (held capturable),
      soundOuter.mono (extends_push _ _).kept (recounted_refl _)⟩,
      fun _ _ made => extends_push _ _ (extended made), ?_, _, made_capture _ _ _, name, ?_⟩
    · rintro rfl
      exact .cons (widens_capture made missing) (wider rfl)
    · intro _
      exact .free rfl (functionChain_function (capture scope further.symbols further.id).1
        function further.scopes) (bound_capture _ _ _)
  | @passed scope _ _ _ _ _ plain ih =>
    obtain ⟨soundOuter, extended, wider, symbol, made, rfl, held⟩ := ih sound.2
    rw [getD_of_made made] at plain
    refine ⟨⟨sound.1.mono extended.kept rfl rfl rfl (wider rfl), soundOuter⟩, extended,
      fun _ => .cons (.refl scope) (wider rfl), symbol, made, rfl, fun capturable => ?_⟩
    have block : scope.block = true := by
      by_contra function
      exact plain ⟨by simpa using function, capturable⟩
    exact (held capturable).block block

/-- A look-up in a table finds nothing, or what a look-up in its scopes ends with. -/
theorem resolve_cases (table : SymbolTable) (name : String) (inner : Bool) :
    ((∀ found, ¬LookUp name table.symbols table.chain inner found) ∧
      table.resolve name inner = (table, none)) ∨
    ∃ found, LookUp name table.symbols table.chain inner found ∧
      (table.resolve name inner).2 = some (found.id, found.depth) ∧
      (table.resolve name inner).1.chain = found.scopes ∧
      (table.resolve name inner).1.symbols = found.symbols := by
  cases resolved : resolveIn name table.symbols table.chain inner with
  | none =>
    refine .inl ⟨fun found looked => ?_, by rw [resolve, resolved]⟩
    cases resolved.symm.trans (resolveIn_iff.2 looked)
  | some found =>
    have looked := resolveIn_iff.1 resolved
    have some : found.scopes ≠ [] := by cases looked <;> exact cons_ne_nil _ _
    refine .inr ⟨found, looked, ?_⟩
    rw [resolve, resolved]
    exact ⟨rfl, chain_withChain _ some, symbols_withChain _ _⟩

theorem soundScope_empty (symbols : Array Symbol) (outer : List Scope) {number : Nat}
    {block : Bool} : SoundScope symbols { number, block } outer :=
  ⟨fun bound => by simp at bound, fun bound => by simp at bound,
    fun captured => by simp at captured⟩

/-- Every change keeps the scopes sound, and what is known about symbols. -/
theorem sound_change (sound : SoundChain table.symbols table.chain) (change : TableChange) :
    SoundChain (table.change change).symbols (table.change change).chain ∧
      Kept table.symbols (table.change change).symbols := by
  have taken : SoundChain table.takeSlot.1.symbols table.takeSlot.1.chain := by
    rw [symbols_takeSlot]
    exact sound.mono (.refl _) (recounted_takeSlot table)
  have storage : table.takeSlot.2.1 ≠ .free := by
    rw [takeSlot_eq]
    dsimp only
    split <;> simp
  have extended (symbol : Symbol) : Kept table.symbols (table.takeSlot.1.symbols.push symbol) := by
    rw [symbols_takeSlot]
    exact (extends_push _ _).kept
  cases change with
  | define name => exact ⟨sound_addSymbol taken storage, extended _⟩
  | defineHidden name => exact ⟨taken.mono (extends_push _ _).kept (recounted_refl _), extended _⟩
  | defineBuiltin index name =>
    exact ⟨sound_addSymbol sound (by simp), (extends_push _ _).kept⟩
  | markAssigned id =>
    exact ⟨sound.mono (kept_markAssigned table id) (recounted_refl _), kept_markAssigned table id⟩
  | enter block =>
    exact ⟨⟨soundScope_empty _ _, sound⟩, .refl _⟩
  | leave =>
    rw [SymbolTable.change, leave]
    split
    next current outer around =>
      rw [chain, around] at sound
      exact ⟨sound.2, .refl _⟩
    next => exact ⟨sound, .refl _⟩
  | resolve name inner =>
    rw [SymbolTable.change]
    rcases table.resolve_cases name inner with ⟨-, none⟩ | ⟨found, looked, -, chain', symbols'⟩
    · rw [none]
      exact ⟨sound, .refl _⟩
    · obtain ⟨sound', extended, -⟩ := resolveIn_sound sound looked
      rw [chain', symbols']
      exact ⟨sound', extended.kept⟩

theorem sound_after {start : SymbolTable} (initial : start.Initial) (changes : List TableChange) :
    SoundChain (start.after changes).symbols (start.after changes).chain :=
  after_induction (fun table => SoundChain table.symbols table.chain)
    ⟨soundScope_empty _ _, trivial⟩ (fun _ change sound => (sound_change sound change).1)
      initial changes

theorem kept_after (sound : SoundChain table.symbols table.chain)
    (changes : List TableChange) : Kept table.symbols (table.after changes).symbols := by
  have both := after_of_step
    (fun later => SoundChain later.symbols later.chain ∧ Kept table.symbols later.symbols)
    (fun _ change before => ⟨(sound_change before.1 change).1,
      before.2.trans (sound_change before.1 change).2⟩)
    ⟨sound, .refl _⟩ changes
  exact both.2

/-! ## Where captures end -/

theorem functionChain_suffix (chain : List Scope) : functionChain chain <:+ chain := by
  induction chain with
  | nil => exact suffix_refl _
  | cons first rest ih =>
    rw [functionChain]
    split
    · exact ih.trans (suffix_cons _ _)
    · exact suffix_refl _

theorem SoundChain.suffix (sound : SoundChain symbols chain) (suffix : scope :: outer <:+ chain) :
    SoundChain symbols (scope :: outer) := by
  induction chain with
  | nil => simp at suffix
  | cons first rest ih =>
    rcases suffix_cons_iff.1 suffix with same | inside
    · rw [same]
      exact sound
    · exact ih sound.2 inside

theorem SoundChain.function (sound : SoundChain symbols chain)
    (function : functionChain chain = scope :: outer) : SoundScope symbols scope outer :=
  (sound.suffix (function ▸ functionChain_suffix chain)).1

/-- A free symbol stands for a symbol of the function around. -/
theorem SoundScope.links (sound : SoundScope symbols scope outer)
    (function : functionChain chain = scope :: outer) (bound : scope.names[name]? = some id)
    (made : symbols[id]? = some symbol) (free : symbol.storage = .free) :
    ∃ next original, Links symbols chain id outer next ∧ symbols[next]? = some original ∧
      Held outer next original := by
  obtain ⟨symbol', made', rfl⟩ := sound.bound bound
  cases made'.symm.trans made
  obtain ⟨-, next, original, captured, origin, same⟩ := sound.free bound made free
  obtain ⟨original', origin', held⟩ := sound.captured captured
  cases origin.symm.trans origin'
  exact ⟨next, original, .mk made free function bound captured origin same held, origin, held⟩

/-- From a block, captures are followed as from the function that it belongs to. -/
theorem Leads.block {target : Nat} (leads : Leads symbols target chain id)
    (block : scope.block = true) : Leads symbols target (scope :: chain) id := by
  have link {outer : List Scope} {next : Nat} (link : Links symbols chain id outer next) :
      Links symbols (scope :: chain) id outer next := by
    obtain ⟨made, free, function, bound, captured, origin, same, held⟩ := link
    refine .mk made free (Eq.trans ?_ function) bound captured origin same held
    rw [functionChain, if_pos block]
  cases leads with
  | last here => exact .last (link here)
  | next here later => exact .next (link here) later

/-- Following captures outwards ends at a local variable. -/
theorem leads_local (sound : SoundChain symbols chain)
    (function : functionChain chain = scope :: outer) (bound : scope.names[name]? = some id)
    (made : symbols[id]? = some symbol) (free : symbol.storage = .free) :
    ∃ target original, Leads symbols target chain id ∧ symbols[target]? = some original ∧
      original.storage = .local_ := by
  -- The function around is further out in the chain, so the induction is on the chain.
  induction chain generalizing scope outer name id symbol with
  | nil => cases function
  | cons first rest ih =>
    by_cases block : first.block = true
    · rw [functionChain, if_pos block] at function
      obtain ⟨target, original, leads, found⟩ := ih sound.2 function bound made free
      exact ⟨target, original, leads.block block, found⟩
    · obtain ⟨next, original, link, origin, held⟩ :=
        (sound.function function).links function bound made free
      rw [functionChain, if_neg block] at function
      obtain ⟨rfl, rfl⟩ := List.cons.inj function
      cases held with
      | local_ storage _ _ => exact ⟨next, original, .last link, origin, storage⟩
      | free storage around bound' =>
        obtain ⟨target, original, leads, found⟩ := ih sound.2 around bound' origin storage
        exact ⟨target, original, .next link leads, found⟩

/-- The free symbols and captures of a scope inside of a chain. -/
structure CapturesFrom (symbols : Array Symbol) (scope : Scope) (outer : List Scope) : Prop where
  /-- A free symbol is one of a function, and its index is the place of a capture. What is captured
  has the same name and belongs to the function around, and so on up to a local variable. -/
  free {name : String} {id : Nat} {symbol : Symbol} : scope.names[name]? = some id →
    symbols[id]? = some symbol → symbol.storage = .free →
    symbol.name = name ∧ scope.block = false ∧ symbol.index < scope.captured.size ∧
      (∃ next, Links symbols (scope :: outer) id outer next) ∧
      ∃ target original, Leads symbols target (scope :: outer) id ∧
        symbols[target]? = some original ∧ original.storage = .local_
  /-- Globals and builtins are never captured. -/
  captured {id : Nat} : id ∈ scope.captured → ∃ original, symbols[id]? = some original ∧
    original.storage ≠ .global ∧ original.storage ≠ .builtin

theorem SoundChain.capturesFrom
    (sound : SoundChain symbols (scope :: outer)) : CapturesFrom symbols scope outer := by
  refine ⟨fun {name id symbol} bound made free => ?_, fun {id} member => ?_⟩
  · obtain ⟨function, next, original, captured, -⟩ := sound.1.free bound made free
    obtain ⟨symbol', made', rfl⟩ := sound.1.bound bound
    cases made'.symm.trans made
    have here := functionChain_function scope function outer
    obtain ⟨next, _, link, -⟩ := sound.1.links here bound made free
    exact ⟨rfl, function, (Array.getElem?_eq_some_iff.1 captured).1, ⟨next, link⟩,
      leads_local sound here bound made free⟩
  · obtain ⟨index, inside, rfl⟩ := Array.mem_iff_getElem.1 member
    obtain ⟨original, origin, held⟩ := sound.1.captured (getElem?_eq_getElem inside)
    refine ⟨original, origin, ?_⟩
    cases held with
    | local_ storage | free storage => simp [storage]

end SymbolTable

end Skiff
