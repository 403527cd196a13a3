import Skiff.Compile.Program
import Skiff.Proofs.Tree.Imports

/-!
# Walks through import graphs

The order in which modules are met: depth first, each import in its turn, and into a module only
where it is met for the first time. A walk stops where it meets a module that it is still inside of.
-/

namespace Skiff

open List

/-- What a name stands for where it is imported. The names in a source text are looked up in
`files`. -/
inductive ImportTarget where
  | source (path text : String) (files : Option FileImports)
  | native (entries : Dict Value)
  | missing (fault : CompileFault)

def ImportTarget.of (modules : ModuleMap) (files : Option FileImports) (name : String) :
    ImportTarget :=
  if name = "" then .missing .emptyModuleName
  else match modules.get? name, files with
    | some (.source text), files => .source name text files
    | some (.native entries), _ => .native entries
    | none, some files =>
      let path := files.path name
      match files.read path with
      | .ok text => .source path text (some { files with directory := Path.parent path })
      | .error e => .missing (.moduleFile path e)
    | none, none => .missing (.moduleNotFound name)

variable {entries : Dict Value} {trail last : Trail} {name : String}

namespace ImportTarget

/-- How names are looked up: first among the modules, then among the files. -/
inductive Found (modules : ModuleMap) (name : String) :
    Option FileImports → ImportTarget → Prop where
  | source {files text} (found : modules.get? name = some (.source text)) :
      Found modules name files (.source name text files)
  | native {files entries} (found : modules.get? name = some (.native entries)) :
      Found modules name files (.native entries)
  | file {files text} (unknown : modules.get? name = none)
      (read : files.read (files.path name) = .ok text) :
      Found modules name (some files) (.source (files.path name) text
        (some { files with directory := Path.parent (files.path name) }))
  | missing {files fault} (acyclic : ∀ path, fault ≠ .cyclicImport path) :
    Found modules name files (.missing fault)

variable {modules : ModuleMap} {files : Option FileImports} {name path text : String}
  {inner : Option FileImports} {target : ImportTarget}

theorem found (lookup : of modules files name = target) : Found modules name files target := by
  subst lookup
  unfold of
  by_cases empty : name = ""
  · rw [if_pos empty]
    exact .missing fun _ => CompileFault.noConfusion
  · rw [if_neg empty]
    cases found : modules.get? name with
    | some module =>
      cases module with
      | source text => exact .source found
      | native entries => exact .native found
    | none =>
      cases files with
      | none => exact .missing fun _ => CompileFault.noConfusion
      | some files =>
        dsimp only
        cases read : files.read (files.path name) with
        | ok text => exact .file found read
        | error e => exact .missing fun _ => CompileFault.noConfusion

theorem of_source (found : modules.get? name = some (.source text)) (named : name ≠ "") :
    of modules none name = .source name text none := by
  unfold of
  rw [if_neg named, found]

theorem of_native (target : of modules files name = .native entries) :
    modules.get? name = some (.native entries) := by
  cases found target with
  | native found => exact found

theorem of_none_source (target : of modules none name = .source path text inner) :
    path = name ∧ inner = none ∧ modules.get? name = some (.source text) := by
  cases found target with
  | source found => exact ⟨rfl, rfl, found⟩

/-- What holds of all texts that may be imported holds of the one that a name leads to, and of those
that may be imported there. -/
theorem texts {holds : String → Prop}
    (source : ∀ {name text}, modules.get? name = some (.source text) → holds text)
    (file : ∀ {found : FileImports} {path text}, files = some found →
      found.read path = .ok text → holds text)
    (target : of modules files name = .source path text inner) :
    holds text ∧
      ∀ {found : FileImports} {path text}, inner = some found → found.read path = .ok text →
        holds text := by
  cases found target with
  | source found => exact ⟨source found, file⟩
  | @file files text _ read =>
    refine ⟨file (Eq.refl (some files)) read, ?_⟩
    intro found path text same there
    cases same
    have here : files.read path = .ok text := there
    exact file (Eq.refl (some files)) here

end ImportTarget

/-- How a walk ends: behind the last import, inside of a cycle, or anywhere, because of something
else than an import. -/
inductive WalkEnd where
  | done
  | cycle (path : String)
  | broken
  deriving DecidableEq

/-- What a walk has met so far: the files that it has come to, in this order, and the imports that
it has behind it, the last one first. -/
structure Trail where
  files : List SourceFile := []
  imports : List String := []

namespace Trail

/-- The paths of the files. -/
def paths (trail : Trail) : List String := trail.files.map SourceFile.name

def enter (trail : Trail) (path text : String) : Trail :=
  { trail with files := trail.files ++ [.ofText path text] }

def note (trail : Trail) (path : String) : Trail := { trail with imports := path :: trail.imports }

end Trail

/-- A walk through the modules behind a list of imports. The modules in `opened` are those that the
walk is inside of, and files are numbered from `first` on in the order in which the walk comes to
them. -/
inductive Walk (modules : ModuleMap) (first : Nat) : Option FileImports → List String →
    List String → Trail → WalkEnd → Trail → Prop where
  | done {files opened trail} : Walk modules first files opened [] trail .done trail
  | broken {files opened names trail} : Walk modules first files opened names trail .broken trail
  | native {files opened name names trail last stop entries}
      (target : ImportTarget.of modules files name = .native entries)
      (rest : Walk modules first files opened names (trail.note name) stop last) :
      Walk modules first files opened (name :: names) trail stop last
  | cycle {files opened name names trail path text inner}
      (target : ImportTarget.of modules files name = .source path text inner)
      (inside : path ∈ opened) :
      Walk modules first files opened (name :: names) trail (.cycle path) trail
  | again {files opened name names trail last stop path text inner}
      (target : ImportTarget.of modules files name = .source path text inner)
      (outside : path ∉ opened) (met : path ∈ trail.paths)
      (rest : Walk modules first files opened names (trail.note path) stop last) :
      Walk modules first files opened (name :: names) trail stop last
  | enter {files opened name names trail between last stop path text inner script}
      (target : ImportTarget.of modules files name = .source path text inner)
      (outside : path ∉ opened) (new : path ∉ trail.paths)
      (parsed : Script.parse text (.ofNat (first + trail.files.length)) = .ok script)
      (body : Walk modules first inner (path :: opened) script.imports
        (trail.enter path text) .done between)
      (rest : Walk modules first files opened names (between.note path) stop last) :
      Walk modules first files opened (name :: names) trail stop last
  | stop {files opened name names trail last stop path text inner script}
      (target : ImportTarget.of modules files name = .source path text inner)
      (outside : path ∉ opened) (new : path ∉ trail.paths)
      (parsed : Script.parse text (.ofNat (first + trail.files.length)) = .ok script)
      (body : Walk modules first inner (path :: opened) script.imports
        (trail.enter path text) stop last)
      (stops : stop ≠ .done) :
      Walk modules first files opened (name :: names) trail stop last

namespace Walk

variable {modules : ModuleMap} {first : Nat} {files : Option FileImports}
  {opened left right : List String} {trail between last last' : Trail} {stop stop' : WalkEnd}

theorem append (early : Walk modules first files opened left trail .done between)
    (late : Walk modules first files opened right between stop last) :
    Walk modules first files opened (left ++ right) trail stop last := by
  generalize ended : WalkEnd.done = state at early
  induction early with
  | done => exact late
  | broken | cycle => cases ended
  | native target _ ih => exact .native target (ih late ended)
  | again target outside met _ ih => exact .again target outside met (ih late ended)
  | enter target outside new parsed body _ _ ih =>
    exact .enter target outside new parsed body (ih late ended)
  | stop _ _ _ _ _ stops => exact absurd ended.symm stops

/-- A walk that stops does not look at further imports. -/
theorem extend (early : Walk modules first files opened left trail stop last)
    (stops : stop ≠ .done) : Walk modules first files opened (left ++ right) trail stop last := by
  induction early with
  | done => exact absurd rfl stops
  | broken => exact .broken
  | native target _ ih => exact .native target (ih stops)
  | cycle target inside => exact .cycle target inside
  | again target outside met _ ih => exact .again target outside met (ih stops)
  | enter target outside new parsed body _ _ ih =>
    exact .enter target outside new parsed body (ih stops)
  | stop target outside new parsed body stops => exact .stop target outside new parsed body stops

section
variable {name : String} {names : List String} {path text : String} {inner : Option FileImports}
  (walk : Walk modules first files opened (name :: names) trail stop last) (whole : stop ≠ .broken)

include walk whole

theorem of_native (target : ImportTarget.of modules files name = .native entries) :
    Walk modules first files opened names (trail.note name) stop last := by
  cases walk with
  | broken => exact absurd rfl whole
  | native _ rest => exact rest
  | cycle target' | again target' | enter target' | stop target' => cases target.symm.trans target'

variable (target : ImportTarget.of modules files name = .source path text inner)

include target

theorem of_inside (inside : path ∈ opened) : stop = .cycle path ∧ last = trail := by
  cases walk with
  | broken => exact absurd rfl whole
  | native target' => cases target.symm.trans target'
  | cycle target' =>
    cases target.symm.trans target'
    exact ⟨rfl, rfl⟩
  | again target' outside | enter target' outside | stop target' outside =>
    cases target.symm.trans target'
    exact absurd inside outside

theorem of_met (outside : path ∉ opened) (met : path ∈ trail.paths) :
    Walk modules first files opened names (trail.note path) stop last := by
  cases walk with
  | broken => exact absurd rfl whole
  | native target' => cases target.symm.trans target'
  | cycle target' inside =>
    cases target.symm.trans target'
    exact absurd inside outside
  | again target' _ _ rest =>
    cases target.symm.trans target'
    exact rest
  | enter target' _ new | stop target' _ new =>
    cases target.symm.trans target'
    exact absurd met new

theorem of_new {script : Script} (outside : path ∉ opened) (new : path ∉ trail.paths)
    (parsed : Script.parse text (.ofNat (first + trail.files.length)) = .ok script) :
    (∃ between, Walk modules first inner (path :: opened) script.imports
      (trail.enter path text) .done
      between ∧ Walk modules first files opened names (between.note path) stop last) ∨
    stop ≠ .done ∧ Walk modules first inner (path :: opened) script.imports
      (trail.enter path text) stop last := by
  cases walk with
  | broken => exact absurd rfl whole
  | native target' => cases target.symm.trans target'
  | cycle target' inside =>
    cases target.symm.trans target'
    exact absurd inside outside
  | again target' _ met =>
    cases target.symm.trans target'
    exact absurd met new
  | enter target' _ _ parsed' body rest =>
    cases target.symm.trans target'
    cases parsed.symm.trans parsed'
    exact .inl ⟨_, body, rest⟩
  | stop target' _ _ parsed' body stops =>
    cases target.symm.trans target'
    cases parsed.symm.trans parsed'
    exact .inr ⟨stops, body⟩

end

/-- Only what has nothing to do with imports can make a difference to a walk. -/
theorem unique (one : Walk modules first files opened left trail stop last)
    (other : Walk modules first files opened left trail stop' last') (whole : stop ≠ .broken)
    (whole' : stop' ≠ .broken) : stop = stop' ∧ last = last' := by
  induction one generalizing stop' last' with
  | done =>
    cases other with
    | done => exact ⟨rfl, rfl⟩
    | broken => exact absurd rfl whole'
  | broken => exact absurd rfl whole
  | native target rest ih => exact ih (other.of_native whole' target) whole whole'
  | cycle target inside =>
    obtain ⟨rfl, rfl⟩ := other.of_inside whole' target inside
    exact ⟨rfl, rfl⟩
  | again target outside met _ ih => exact ih (other.of_met whole' target outside met) whole whole'
  | enter target outside new parsed body rest ihBody ih =>
    obtain ⟨between, body', rest'⟩ | ⟨stops, body'⟩ := other.of_new whole' target outside new parsed
    · obtain ⟨-, rfl⟩ := ihBody body' (by decide) (by decide)
      exact ih rest' whole whole'
    · exact absurd (ihBody body' (by decide) whole').1.symm stops
  | stop target outside new parsed body stops ih =>
    obtain ⟨between, body', rest'⟩ | ⟨-, body'⟩ := other.of_new whole' target outside new parsed
    · exact absurd (ih body' whole (by decide)).1 stops
    · exact ih body' whole whole'

theorem grows (walk : Walk modules first files opened left trail stop last) :
    trail.files <+: last.files := by
  induction walk with
  | done | broken | cycle => exact prefix_rfl
  | native _ _ ih => exact ih
  | again _ _ _ _ ih => exact ih
  | enter _ _ _ _ _ _ ihBody ih => exact (prefix_append ..).trans (ihBody.trans ih)
  | stop _ _ _ _ _ _ ih => exact (prefix_append ..).trans ih

/-- The number of the file that a walk has entered. -/
theorem getElem?_entered {path text : String}
    (walk : Walk modules first files opened left (trail.enter path text) stop last) :
    last.files[trail.files.length]? = some (.ofText path text) := by
  obtain ⟨more, same⟩ := walk.grows
  simp [← same, Trail.enter]

theorem paths_subset (walk : Walk modules first files opened left trail stop last) :
    trail.paths ⊆ last.paths :=
  map_subset _ walk.grows.subset

theorem nodup (walk : Walk modules first files opened left trail stop last)
    (distinct : trail.paths.Nodup) : last.paths.Nodup := by
  have entered {trail : Trail} {path text : String} (distinct : trail.paths.Nodup)
      (new : path ∉ trail.paths) : (trail.enter path text).paths.Nodup := by
    rw [Trail.paths, Trail.enter, map_append, nodup_append]
    refine ⟨distinct, nodup_cons.2 ⟨not_mem_nil, nodup_nil⟩, fun one early other late same => ?_⟩
    obtain rfl : one = path := same.trans (mem_singleton.1 late)
    exact new early
  induction walk with
  | done | broken | cycle => exact distinct
  | native _ _ ih | again _ _ _ _ ih => exact ih distinct
  | enter _ _ new _ _ _ ihBody ih => exact ih (ihBody (entered distinct new))
  | stop _ _ new _ _ _ ih => exact ih (entered distinct new)

end Walk

/-! ## What names lead to -/

/-- What a text imports where it is a file. -/
def Imported (text name : String) : Prop :=
  ∃ number script, Script.parse text number = .ok script ∧ name ∈ script.imports

/-- The paths of all source texts that `good` names lead to, from any text among them. -/
structure PathsWithin (modules : ModuleMap) (paths : List String)
    (allowed : Option FileImports → Prop) (good : String → Prop) : Prop where
  target {files inner : Option FileImports} {name path text : String} : allowed files → good name →
    ImportTarget.of modules files name = .source path text inner →
    path ∈ paths ∧ allowed inner ∧ ∀ name, Imported text name → good name

/-- A name that has been met on a walk: a native module, or a source text that the walk has come
to. -/
def Trail.Reaches (trail : Trail) (modules : ModuleMap) (files : Option FileImports)
    (name : String) : Prop :=
  (∃ entries, ImportTarget.of modules files name = .native entries) ∨
    ∃ path text inner, ImportTarget.of modules files name = .source path text inner ∧
      path ∈ trail.paths

theorem Trail.Reaches.mono {modules : ModuleMap} {files : Option FileImports}
    (reaches : trail.Reaches modules files name) (more : trail.paths ⊆ last.paths) :
    last.Reaches modules files name := by
  rcases reaches with native | ⟨path, text, inner, target, met⟩
  · exact .inl native
  · exact .inr ⟨path, text, inner, target, more met⟩

/-- A file that a walk has been through: some name leads to it, and all that it imports is met. -/
def Trail.Behind (trail : Trail) (modules : ModuleMap) (files : Option FileImports) (name : String)
    (number : Nat) (file : SourceFile) : Prop :=
  ∃ inner, ImportTarget.of modules files name = .source file.name file.text inner ∧
    ∃ script, Script.parse file.text (.ofNat number) = .ok script ∧
      ∀ name ∈ script.imports, trail.Reaches modules inner name

theorem Trail.Behind.mono {modules : ModuleMap} {files : Option FileImports} {number : Nat}
    {file : SourceFile} (behind : trail.Behind modules files name number file)
    (more : trail.paths ⊆ last.paths) : last.Behind modules files name number file := by
  obtain ⟨inner, target, script, parsed, met⟩ := behind
  exact ⟨inner, target, script, parsed, fun name member => (met name member).mono more⟩

namespace Walk

variable {modules : ModuleMap} {first : Nat} {files : Option FileImports}
  {opened names paths : List String}
  {trail last : Trail} {allowed : Option FileImports → Prop} {good : String → Prop}

/-- A walk to the end meets all imports, and goes through every file that it comes to. -/
theorem closed (walk : Walk modules first files opened names trail .done last)
    (within : PathsWithin modules paths allowed good) (ok : allowed files)
    (goods : ∀ name ∈ names, good name) : (∀ name ∈ names, last.Reaches modules files name) ∧
    ∀ place file, trail.files.length ≤ place → last.files[place]? = some file →
      ∃ files name, allowed files ∧ good name ∧
        last.Behind modules files name (first + place) file := by
  generalize ended : WalkEnd.done = stop at walk
  induction walk with
  | broken | cycle => cases ended
  | stop _ _ _ _ _ stops => exact absurd ended.symm stops
  | done =>
    refine ⟨fun _ member => absurd member not_mem_nil, fun place file behind here => ?_⟩
    rw [getElem?_eq_none behind] at here
    cases here
  | native target _ ih =>
    obtain ⟨met, through⟩ := ih ok (forall_mem_cons.1 goods).2 ended
    exact ⟨forall_mem_cons.2 ⟨.inl ⟨_, target⟩, met⟩, through⟩
  | again target _ known rest ih =>
    obtain ⟨met, through⟩ := ih ok (forall_mem_cons.1 goods).2 ended
    exact ⟨forall_mem_cons.2 ⟨.inr ⟨_, _, _, target, rest.paths_subset known⟩, met⟩, through⟩
  | @enter files opened name names trail between last stop path text inner script target _ _
      parsed body rest ihBody ih =>
    obtain ⟨isGood, goods⟩ := forall_mem_cons.1 goods
    obtain ⟨-, okBody, goodBody⟩ := within.target ok isGood target
    obtain ⟨metBody, throughBody⟩ :=
      ihBody okBody (fun name member => goodBody name ⟨_, script, parsed, member⟩) rfl
    obtain ⟨met, through⟩ := ih ok goods ended
    have here := body.getElem?_entered
    refine ⟨forall_mem_cons.2 ⟨?_, met⟩, fun place file behind there => ?_⟩
    · have known := rest.paths_subset (mem_map.2 ⟨_, mem_of_getElem? here, rfl⟩)
      exact .inr ⟨_, _, _, target, known⟩
    · -- The file itself, those that its own imports lead to, and those behind it.
      by_cases early : place < between.files.length
      · have there : between.files[place]? = some file := by
          obtain ⟨more, same⟩ := rest.grows
          rw [← same] at there
          exact (getElem?_append_left early).symm.trans there
        rcases Nat.eq_or_lt_of_le behind with rfl | later
        · cases here.symm.trans there
          exact ⟨files, name, ok, isGood, Trail.Behind.mono ⟨inner, target, script, parsed, metBody⟩
            rest.paths_subset⟩
        · have later : (trail.enter path text).files.length ≤ place := by
            rw [Trail.enter, length_append]
            exact later
          obtain ⟨files', name', ok', good', behind'⟩ := throughBody place file later there
          exact ⟨files', name', ok', good', behind'.mono rest.paths_subset⟩
      · exact through place file (Nat.le_of_not_lt early) there

/-- What a walk to the end has left leads to nothing but what it had left before, so no chain of
imports leads back to where it starts. Here `leads` is about imports in the texts of the files. -/
theorem acyclic {final : Trail} (leads : String → String → Prop)
    (steps : ∀ {files inner name path text number script q}, allowed files → good name →
      ImportTarget.of modules files name = .source path text inner →
      final.files[number]? = some (.ofText path text) →
      Script.parse text (.ofNat (first + number)) = .ok script → leads path q →
      ∃ name ∈ script.imports, ∃ text inner', ImportTarget.of modules inner name
        = .source q text inner')
    (walk : Walk modules first files opened names trail .done last)
      (grown : last.files <+: final.files)
    (within : PathsWithin modules paths allowed good) (ok : allowed files)
      (goods : ∀ name ∈ names, good name)
    (before : ∀ path ∈ trail.paths, path ∉ opened → Acc (flip leads) path) :
    (∀ path ∈ last.paths, path ∉ opened → Acc (flip leads) path) ∧
    ∀ name ∈ names, ∀ path text inner, ImportTarget.of modules files name
      = .source path text inner → path ∈ last.paths ∧ path ∉ opened := by
  generalize ended : WalkEnd.done = stop at walk
  induction walk with
  | broken | cycle => cases ended
  | stop _ _ _ _ _ stops => exact absurd ended.symm stops
  | done => exact ⟨before, fun _ member => absurd member not_mem_nil⟩
  | native target _ ih =>
    obtain ⟨acc, met⟩ := ih grown ok (forall_mem_cons.1 goods).2 before ended
    refine ⟨acc, forall_mem_cons.2 ⟨fun path text inner target' => ?_, met⟩⟩
    cases target.symm.trans target'
  | again target outside known rest ih =>
    obtain ⟨acc, met⟩ := ih grown ok (forall_mem_cons.1 goods).2 before ended
    refine ⟨acc, forall_mem_cons.2 ⟨fun path text inner target' => ?_, met⟩⟩
    cases target.symm.trans target'
    exact ⟨rest.paths_subset known, outside⟩
  | @enter files opened name names trail between last stop path text inner script target outside
      new parsed body rest ihBody ih =>
    obtain ⟨isGood, goods⟩ := forall_mem_cons.1 goods
    obtain ⟨-, okBody, goodBody⟩ := within.target ok isGood target
    have here := body.getElem?_entered
    have known : path ∈ between.paths := mem_map.2 ⟨_, mem_of_getElem? here, rfl⟩
    have entered : ∀ other ∈ (trail.enter path text).paths, other ∉ path :: opened →
        Acc (flip leads) other := by
      intro other member apart
      rw [mem_cons, not_or] at apart
      rw [Trail.paths, Trail.enter, map_append, mem_append] at member
      rcases member with old | same
      · exact before other old apart.2
      · exact absurd (mem_singleton.1 same) apart.1
    obtain ⟨accBody, metBody⟩ := ihBody (rest.grows.trans grown) okBody
      (fun name member => goodBody name ⟨_, script, parsed, member⟩) entered rfl
    -- All that the file imports has been left before the file is.
    have acc : Acc (flip leads) path := by
      refine ⟨_, fun q lead => ?_⟩
      have there : final.files[trail.files.length]? = some (.ofText path text) := by
        obtain ⟨more, same⟩ := rest.grows.trans grown
        rw [← same]
        exact (List.getElem?_append_left (List.getElem?_eq_some_iff.1 here).1).trans here
      obtain ⟨name, member, text, inner', target'⟩ := steps ok isGood target there parsed lead
      obtain ⟨met, closed⟩ := metBody name member q text inner' target'
      exact accBody q met closed
    have left : ∀ other ∈ between.paths, other ∉ opened → Acc (flip leads) other := by
      intro other member apart
      by_cases same : other = path
      · rw [same]
        exact acc
      · refine accBody other member fun inside => ?_
        rcases mem_cons.1 inside with this | this
        · exact same this
        · exact apart this
    obtain ⟨accRest, met⟩ := ih grown ok goods left ended
    refine ⟨accRest, forall_mem_cons.2 ⟨fun path text inner target' => ?_, met⟩⟩
    cases target.symm.trans target'
    exact ⟨rest.paths_subset known, outside⟩

end Walk

/-! ## Modules without files -/

/-- A name that is met on a walk, unless it is no source text. -/
def Trail.Meets (trail : Trail) (modules : ModuleMap) (name : String) : Prop :=
  ∀ text, modules.get? name = some (.source text) → name ∈ trail.paths

/-- A file that a walk has been through: it is a module, and so are all that it imports. -/
structure Trail.Through (trail : Trail) (modules : ModuleMap) (number : Nat) (file : SourceFile) :
    Prop where
  isModule : modules.get? file.name = some (.source file.text)
  imports : ∃ script, Script.parse file.text (.ofNat number) = .ok script ∧
    ∀ name ∈ script.imports, trail.Meets modules name

end Skiff
