import Skiff.Proofs.Scope.Capture

/-!
# Looking names up

A look-up ends at the innermost open scope that binds the name. If there is a function on the way
and what is bound can be captured, the nearest function gets a free symbol that stands for it.
-/

namespace Skiff

namespace SymbolTable

/-- The scope at a place of a chain binds a name to a symbol. At its first place a look-up that does
not start inside passes over a local variable without a value. -/
def BindsAt (symbols : Array Symbol) (chain : List Scope) (name : String) (inner : Bool)
    (place id : Nat) : Prop :=
  ∃ scope symbol, chain[place]? = some scope ∧ scope.names[name]? = some id ∧
    symbols[id]? = some symbol ∧
    ¬(place = 0 ∧ inner = false ∧ symbol.storage = .local_ ∧ symbol.assigned = false)

/-- The innermost place at which a chain binds a name, and the symbol there. -/
structure Innermost (symbols : Array Symbol) (chain : List Scope) (name : String) (inner : Bool)
    (place id : Nat) : Prop where
  binds : BindsAt symbols chain name inner place id
  first {earlier other : Nat} : earlier < place → ¬BindsAt symbols chain name inner earlier other

/-- There is a function between the start of a chain and a place of it. -/
def Crosses (chain : List Scope) (place : Nat) :
    Prop := ∃ scope ∈ chain.take place, scope.block = false

variable {chain : List Scope}

variable {symbols symbols' : Array Symbol} {id target : Nat} {name : String} {inner : Bool}
  {outer : List Scope} {found : Resolution}

theorem Innermost.unique {place place' id' : Nat}
    (left : Innermost symbols chain name inner place id)
    (right : Innermost symbols chain name inner place' id') : place = place' ∧ id = id' := by
  obtain rfl : place = place' := by
    rcases Nat.lt_trichotomy place place' with less | same | more
    · exact absurd left.binds (right.first less)
    · exact same
    · exact absurd right.binds (left.first more)
  obtain ⟨scope, _, here, bound, -⟩ := left.binds
  obtain ⟨scope', _, here', bound', -⟩ := right.binds
  cases here.symm.trans here'
  exact ⟨rfl, Option.some.inj (bound.symm.trans bound')⟩

section
variable {symbols : Array Symbol} {scope : Scope} {outer : List Scope} {name : String}
  {inner : Bool} {place id : Nat}

theorem bindsAt_succ : BindsAt symbols (scope :: outer) name inner (place + 1) id ↔
    BindsAt symbols outer name true place id := by
  simp [BindsAt]

theorem not_bindsAt_zero (missing : PassedOver symbols name inner scope) :
    ¬BindsAt symbols (scope :: outer) name inner 0 id := by
  rintro ⟨_, symbol, ⟨⟩, bound, made, seen⟩
  have hidden := missing id bound
  rw [getD_of_made made] at hidden
  apply seen
  simpa [visible, and_assoc, and_comm] using hidden

theorem Innermost.succ (missing : PassedOver symbols name inner scope)
    (found : Innermost symbols outer name true place id) :
    Innermost symbols (scope :: outer) name inner (place + 1) id := by
  refine ⟨bindsAt_succ.2 found.binds, fun {earlier other} less => ?_⟩
  cases earlier with
  | zero => exact not_bindsAt_zero missing
  | succ earlier => exact fun binds => found.first (by omega) (bindsAt_succ.1 binds)

theorem crosses_succ : Crosses (scope :: outer) (place + 1) ↔
    scope.block = false ∨ Crosses outer place := by
  simp [Crosses]

end

theorem Links.extends {next : Nat} (link : Links symbols chain id outer next)
    (extended : Extends symbols symbols') : Links symbols' chain id outer next := by
  obtain ⟨made, free, function, bound, captured, origin, same, held⟩ := link
  exact .mk (extended made) free function bound captured (extended origin) same held

theorem Leads.extends (leads : Leads symbols target chain id)
    (extended : Extends symbols symbols') : Leads symbols' target chain id := by
  induction leads with
  | last link => exact .last (link.extends extended)
  | next link _ ih => exact .next (link.extends extended) ih

theorem Leads.free (leads : Leads symbols target chain id) :
    ∃ symbol, symbols[id]? = some symbol ∧ symbol.storage = .free := by
  cases leads with
  | last link | next link _ => cases link; exact ⟨_, ‹_›, ‹_›⟩

/-- A capture is a free symbol that stands for what is captured. -/
theorem links_capture {scope : Scope} {symbol : Symbol} (function : scope.block = false)
    (made : symbols[id]? = some symbol) (held : Held outer id symbol) :
    Links (capture scope symbols id).2.1 ((capture scope symbols id).1 :: outer)
      (capture scope symbols id).2.2 outer id := by
  refine .mk (made_capture scope symbols id) rfl
    (functionChain_function (capture scope symbols id).1 function outer)
    (bound_capture scope symbols id) (captured_capture scope symbols id)
      (extends_push _ _ made) ?_ held
  rw [getD_of_made made]

/-- A look-up ends at the innermost place that binds the name, with the symbol there or with the
free symbol that stands for it. -/
theorem resolveIn_innermost (sound : SoundChain symbols chain)
    (looked : LookUp name symbols chain inner found) :
    ∃ id symbol, Innermost symbols chain name inner found.depth id ∧ symbols[id]? = some symbol ∧
      (Crosses chain found.depth ∧ Capturable symbol → Leads found.symbols id found.scopes found.id)
      ∧ (¬(Crosses chain found.depth ∧ Capturable symbol) →
        found.id = id ∧ found.symbols = symbols ∧ found.scopes = chain) := by
  induction looked with
  | @here scope _ _ id bound seen =>
    obtain ⟨symbol, made, -⟩ := sound.1.bound bound
    rw [getD_of_made made] at seen
    refine ⟨id, symbol, ⟨⟨scope, symbol, rfl, bound, made, ?_⟩, nofun⟩, made, ?_, fun _ =>
      ⟨rfl, rfl, rfl⟩⟩
    · rintro ⟨-, rfl, isLocal, unassigned⟩
      simp [visible, isLocal, unassigned] at seen
    · rintro ⟨⟨_, member, -⟩, -⟩
      cases member
  | @captured _ outer _ further missing away function capturable ih =>
    obtain ⟨id, symbol, innermost, made, leads, same⟩ := ih sound.2
    obtain ⟨-, -, -, symbol', made', -, held⟩ := resolveIn_sound sound.2 away
    rw [getD_of_made made'] at capturable
    have link := links_capture function made' (held capturable)
    refine ⟨id, symbol, innermost.succ missing, made, fun _ => ?_, fun neither => ?_⟩
    · by_cases both : Crosses outer further.depth ∧ Capturable symbol
      · exact .next link ((leads both).extends (extends_push _ _))
      · obtain ⟨rfl, -⟩ := same both
        exact .last link
    · refine absurd ⟨crosses_succ.2 (.inl function), ?_⟩ neither
      by_contra plain
      obtain ⟨rfl, symbols', -⟩ := same fun both => plain both.2
      rw [symbols'] at made'
      cases made.symm.trans made'
      exact plain capturable
  | @passed scope outer _ further missing _ plain ih =>
    obtain ⟨id, symbol, innermost, made, leads, same⟩ := ih sound.2
    refine ⟨id, symbol, innermost.succ missing, made, ?_, fun neither => ?_⟩
    · rintro ⟨crosses, capturable⟩
      have free : Capturable (further.symbols.getD further.id default) := by
        by_cases both : Crosses outer further.depth ∧ Capturable symbol
        · obtain ⟨symbol', made', isFree⟩ := (leads both).free
          rw [getD_of_made made']
          exact .inr isFree
        · obtain ⟨rfl, symbols', -⟩ := same both
          rw [symbols', getD_of_made made]
          exact capturable
      have block : scope.block = true := by
        by_contra function
        exact plain ⟨by simpa using function, free⟩
      have around : Crosses outer further.depth := by
        rcases crosses_succ.1 crosses with function | around
        · rw [block] at function
          cases function
        · exact around
      exact (leads ⟨around, capturable⟩).block block
    · obtain ⟨rfl, symbols', scopes'⟩ := same fun both =>
        neither ⟨crosses_succ.2 (.inr both.1), both.2⟩
      exact ⟨rfl, symbols', by rw [scopes']⟩

theorem not_bindsAt_of_none (none : ∀ found, ¬LookUp name symbols chain inner found)
    (place id : Nat) : ¬BindsAt symbols chain name inner place id := by
  induction chain generalizing inner place with
  | nil => rintro ⟨_, _, here, -⟩; cases here
  | cons scope outer ih =>
    have missing : PassedOver symbols name inner scope := by
      rintro other bound
      by_contra seen
      exact none _ (.here bound (by simpa using seen))
    cases place with
    | zero => exact not_bindsAt_zero missing
    | succ place =>
      rw [bindsAt_succ]
      refine ih (fun further away => ?_) place
      by_cases both : scope.block = false ∧ Capturable (further.symbols.getD further.id default)
      · exact none _ (.captured missing away both.1 both.2)
      · exact none _ (.passed missing away both)

/-- Looking the same name up again finds the same symbol, and changes nothing. -/
theorem resolveIn_again (sound : SoundChain symbols chain)
    (looked : LookUp name symbols chain inner found) :
    ∃ depth, LookUp name found.symbols found.scopes inner { found with depth } := by
  induction looked with
  | here bound seen => exact ⟨0, .here bound seen⟩
  | captured _ away =>
    obtain ⟨-, -, -, symbol, made, rfl, -⟩ := resolveIn_sound sound.2 away
    refine ⟨0, .here ?_ ?_⟩
    · rw [← getD_of_made made]
      exact bound_capture _ _ _
    · dsimp only
      rw [getD_of_made (made_capture _ _ _)]
      rfl
  | passed missing away plain ih =>
    obtain ⟨-, extended, -⟩ := resolveIn_sound sound.2 away
    obtain ⟨depth, again⟩ := ih sound.2
    refine ⟨depth + 1, .passed ?_ again plain⟩
    intro id bound
    obtain ⟨symbol, made, -⟩ := sound.1.bound bound
    have hidden := missing id bound
    rw [getD_of_made made] at hidden
    rwa [getD_of_made (extended made)]

/-- What looking a name up gives. -/
structure LooksUp (table : SymbolTable) (name : String) (inner : Bool) : Prop where
  /-- Nothing is found if no open scope binds the name. -/
  none : (∀ place id, ¬BindsAt table.symbols table.chain name inner place id) →
    table.resolve name inner = (table, none)
  /-- Otherwise the symbol of the innermost scope that binds the name is found. If a function was
  crossed and it can be captured, the free symbol of the nearest function that stands for it is
  found in its place. Looking the name up again finds the same and changes nothing. -/
  found {place id : Nat} {symbol : Symbol} :
    Innermost table.symbols table.chain name inner place id → table.symbols[id]? = some symbol →
    ∃ found, (table.resolve name inner).2 = some (found, place) ∧
      (Crosses table.chain place ∧ Capturable symbol →
        Leads (table.resolve name inner).1.symbols id (table.resolve name inner).1.chain found) ∧
      (¬(Crosses table.chain place ∧ Capturable symbol) →
        found = id ∧ (table.resolve name inner).1 = table) ∧
      ∃ depth, (table.resolve name inner).1.resolve name inner
        = ((table.resolve name inner).1, some (found, depth))

theorem looksUp_of_sound {table : SymbolTable} (sound : SoundChain table.symbols table.chain)
    (name : String) (inner : Bool) : LooksUp table name inner := by
  rcases table.resolve_cases name inner with
    ⟨nowhere, none⟩ | ⟨found, looked, answer, chain', symbols'⟩
  · refine ⟨fun _ => none, fun {place id symbol} innermost => ?_⟩
    exact absurd innermost.binds (not_bindsAt_of_none nowhere place id)
  · obtain ⟨id, symbol, innermost, made, leads, same⟩ := resolveIn_innermost sound looked
    refine ⟨fun nowhere => absurd innermost.binds (nowhere _ _), fun innermost' made' => ?_⟩
    obtain ⟨rfl, rfl⟩ := innermost.unique innermost'
    cases made.symm.trans made'
    refine ⟨found.id, answer, fun both => ?_, fun neither => ?_, ?_⟩
    · rw [chain', symbols']
      exact leads both
    · obtain ⟨rfl, symbols₀, chain₀⟩ := same neither
      refine ⟨rfl, ?_⟩
      rw [resolve, resolveIn_iff.2 looked]
      dsimp only
      rw [symbols₀, chain₀]
      rfl
    · obtain ⟨depth, again⟩ := resolveIn_again sound looked
      refine ⟨depth, ?_⟩
      rw [← chain', ← symbols'] at again
      rw [resolve, resolveIn_iff.2 again]
      rfl

/-- In every table that comes about by changes, every scope that is open, or was open when some of
the changes had been made, has sound captures; and looking a name up finds what it should. -/
theorem captures_sound {start : SymbolTable} (initial : start.Initial)
    (changes later : List TableChange) :
    (∀ scope outer, scope :: outer <:+ (start.after changes).chain →
      CapturesFrom ((start.after changes).after later).symbols scope outer) ∧
    ∀ name inner, LooksUp (start.after changes) name inner := by
  have sound := sound_after initial changes
  refine ⟨fun scope outer suffix => ?_, looksUp_of_sound sound⟩
  have here := sound.suffix suffix
  exact (here.mono (kept_after sound later) (recounted_refl _)).capturesFrom

/-- A function with a variable that has a value, and a function and a block in it. -/
def nestedChanges : List TableChange :=
  [.enter false, .define "a", .markAssigned 0, .enter false, .enter true]

/-- From the block the variable is found through a free symbol of the inner function. -/
theorem captures_sound_nested :
    ∃ found, ((({} : SymbolTable).after nestedChanges).resolve "a" false).2 = some (found, 2) ∧
      Leads ((({} : SymbolTable).after nestedChanges).resolve "a" false).1.symbols 0
        ((({} : SymbolTable).after nestedChanges).resolve "a" false).1.chain found := by
  obtain ⟨-, looksUp⟩ := captures_sound .empty nestedChanges []
  have innermost : Innermost (({} : SymbolTable).after nestedChanges).symbols
      (({} : SymbolTable).after nestedChanges).chain "a" false 2 0 := by
    refine ⟨⟨_, _, rfl, Std.HashMap.getElem?_insert_self, rfl, by simp⟩,
      fun {earlier other} less => ?_⟩
    rintro ⟨scope, symbol, here, bound, -⟩
    match earlier, less with
    | 0, _ | 1, _ =>
      cases here
      change ({} : Std.HashMap String Nat)["a"]? = some other at bound
      simp at bound
  obtain ⟨found, answer, leads, -⟩ := (looksUp "a" false).found innermost rfl
  exact ⟨found, answer,
    leads ⟨⟨_, List.mem_cons_of_mem _ (List.mem_singleton_self _), rfl⟩, .inl rfl⟩⟩

end SymbolTable

end Skiff
