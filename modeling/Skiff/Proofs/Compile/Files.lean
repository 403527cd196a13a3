import Skiff.Proofs.Compile.Linked
import Skiff.Proofs.Source.Path

/-!
# Files are compiled once

Names that never go up lead to one path for each file of a tree, whatever file they stand in. Such
files are compiled like modules with names of their own. With `..` in a name, the same file has
other paths besides, and is another module under each of them.
-/

namespace Skiff

open List

variable {name text : String} {inner : Option FileImports}

theorem ImportTarget.of_some_source {modules : ModuleMap} {files : FileImports} {path : String}
    (target : of modules (some files) name = .source path text inner) :
    (path = name ∧ inner = some files ∧ modules.get? name = some (.source text)) ∨
      (modules.get? name = none ∧ path = files.path name ∧ files.read path = .ok text ∧
        inner = some { files with directory := Path.parent path }) := by
  cases found target with
  | source found => exact .inl ⟨rfl, rfl, found⟩
  | file unknown read => exact .inr ⟨unknown, rfl, read, rfl⟩

namespace FileTree

/-- The place of a file below the root of a tree. -/
structure Spot (place : List String) : Prop where
  named : ∀ name ∈ place, Path.Named name
  down : ".." ∉ place

/-- Files are looked for in a directory of a tree. -/
structure Below (tree : FileTree) (root : List String) (extension : String) (files : FileImports) :
    Prop where
  read : files.read = tree.read
  current : files.current = tree.root
  ending : files.extension = extension
  directory : files.directory = "." ∨ ∃ place, Spot place ∧
    files.directory = Path.ofParts (root ++ place)

variable {place : List String}

section
variable {tree : FileTree} {root : List String} {extension : String} {files : FileImports}
  {name : String} (rooted : tree.Root root)
include rooted

/-- A name that does not go up leads to a path that shows its place. -/
theorem Below.path (long : Path.Ending extension) (below : tree.Below root extension files)
    (plain : FileImports.Plain name) :
    ∃ place, Spot place ∧ place ≠ [] ∧ files.path name = Path.ofParts (root ++ place) := by
  obtain ⟨-, current, ending, directory⟩ := below
  have long : Path.Ending files.extension := ending ▸ long
  have relative := plain.file_relative long
  have some := FileImports.parts_file_ne_nil long name
  have last := FileImports.getLast?_file long name
  have spot : Spot (Path.parts (files.file name)) :=
    ⟨fun _ => Path.named_of_mem_parts, plain.file_down long⟩
  rw [FileImports.path_eq]
  rcases directory with here | ⟨place, within, there⟩
  · refine ⟨_, spot, some, ?_⟩
    have notEmpty : files.file name ≠ "" := by
      intro empty
      rw [empty] at some
      exact some Path.parts_empty
    have joined : Path.isAbsolute (Path.join "." (files.file name)) = false := by
      have slash : ".".endsWith '/' = false := Path.endsWith_slash (by decide)
      have full : ".".isEmpty = false := by rw [String.isEmpty_eq_false_iff]; decide
      rw [Path.join, relative, full, slash, Path.isAbsolute, String.startsWith_char_eq_head?]
      simp
    have parts : Path.parts (Path.join "." (files.file name)) = Path.parts (files.file name) := by
      have dot : Path.parts "." = [] := by
        rw [Path.parts, Path.pieces_of_no_slash (by decide)]
        rfl
      rw [Path.parts_join relative, dot, nil_append]
    rw [here, current, rooted.written, Path.absolute_relative rooted.below rooted.named joined
      ?_ ?_, parts]
    · rw [Path.getLast?_join notEmpty]
      exact last
    · rw [parts]
      exact some
  · have named := forall_mem_append.2 ⟨rooted.named, within.named⟩
    have nonempty : root ++ place ≠ [] := append_ne_nil_of_left_ne_nil rooted.below _
    refine ⟨place ++ Path.parts (files.file name), ⟨?_, ?_⟩,
      append_ne_nil_of_right_ne_nil _ some, ?_⟩
    · exact forall_mem_append.2 ⟨within.named, spot.named⟩
    · rw [mem_append]
      rintro (early | late)
      · exact within.down early
      · exact spot.down late
    · rw [there, Path.absolute_join _ nonempty named relative last some, append_assoc]

/-- What is imported from a file stands below the directory of that file. -/
theorem Below.inside (below : tree.Below root extension files) (spot : Spot place)
    (some : place ≠ []) :
    tree.Below root extension
      { files with directory := Path.parent (Path.ofParts (root ++ place)) } := by
  refine ⟨below.read, below.current, below.ending, .inr ⟨place.dropLast, ?_, ?_⟩⟩
  · exact ⟨fun name member => spot.named name (mem_of_mem_dropLast member),
      fun member => spot.down (mem_of_mem_dropLast member)⟩
  · have whole := dropLast_append_getLast some
    have nonempty : root ++ place.dropLast ≠ [] := append_ne_nil_of_left_ne_nil rooted.below _
    have named : ∀ name ∈ root ++ place.dropLast, Path.Named name := forall_mem_append.2
      ⟨rooted.named, fun name member => spot.named name (mem_of_mem_dropLast member)⟩
    have parent := Path.parent_ofParts nonempty named (spot.named _ (getLast_mem some))
    rw [append_assoc, whole] at parent
    dsimp only
    exact parent

end

/-- A file of a program that stands at a place of a tree. -/
def Holds (tree : FileTree) (place : List String) (file : SourceFile) : Prop :=
  tree.place? file.name = .ok (some place) ∧ (place, file.text) ∈ tree.files

end FileTree

/-- A name that can stand in a text: that of a module, or one that leads to a file without going
up. -/
def GoesDown (modules : ModuleMap) (name : String) : Prop :=
  modules.get? name ≠ none ∨ FileImports.Plain name

/-- Programs import files of a tree, from its root on, and modules with names that are no paths from
the root. All its files may be open inside one another, and no text goes up. -/
structure FileTree.Supplies (tree : FileTree) (root : List String) (modules : ModuleMap)
    (files : FileImports) : Prop where
  rooted : tree.Root root
  read : files.read = tree.read
  current : files.current = tree.root
  start : files.directory = "."
  ending : Path.Ending files.extension
  few : tree.files.length ≤ files.depth
  relative (name : String) : modules.get? name ≠ none → Path.isAbsolute name = false
  sources (name text : String) : modules.get? name = some (.source text) →
    ∀ other, Imported text other → GoesDown modules other
  texts (place : List String) (text : String) : (place, text) ∈ tree.files →
    ∀ name, Imported text name → GoesDown modules name

namespace FileTree.Supplies

variable {tree : FileTree} {root : List String} {modules : ModuleMap} {files : FileImports}
  (supplies : tree.Supplies root modules files)
include supplies

theorem below : tree.Below root files.extension files :=
  ⟨supplies.read, supplies.current, rfl, .inl supplies.start⟩

/-- A name that goes down leads to a module, or to a file at its place. -/
theorem source {directory path : String}
    (below : tree.Below root files.extension { files with directory })
    (down : GoesDown modules name)
    (target : ImportTarget.of modules (some { files with directory }) name
      = .source path text inner) :
    (path = name ∧ inner = some { files with directory } ∧ modules.get? path = some (.source text))
      ∨ (modules.get? path = none ∧ ∃ place, Spot place ∧ path = Path.ofParts (root ++ place) ∧
        tree.Holds place (.ofText path text) ∧
        inner = some { files with directory := Path.parent path } ∧
        tree.Below root files.extension { files with directory := Path.parent path }) := by
  rcases ImportTarget.of_some_source target with ⟨rfl, rfl, found⟩ | ⟨missing, rfl, read, rfl⟩
  · exact .inl ⟨rfl, rfl, found⟩
  · rcases down with found | plain
    · exact absurd missing found
    · obtain ⟨place, spot, some, path⟩ := below.path supplies.rooted supplies.ending plain
      have absolute : modules.get? ({ files with directory : FileImports }.path name) = none := by
        by_contra found
        have relative := supplies.relative _ found
        rw [path, Path.isAbsolute_ofParts] at relative
        cases relative
      rw [path, below.read] at read
      obtain ⟨leads, member⟩ := of_read supplies.rooted some spot.named spot.down read
      refine .inr ⟨absolute, place, spot, path, ⟨path ▸ leads, member⟩, rfl, ?_⟩
      rw [path]
      exact supplies.below.inside supplies.rooted spot some

theorem pathsWithin : PathsWithin modules
    (modules.entries.toList.map Prod.fst ++ tree.files.map fun file =>
    Path.ofParts (root ++ file.1)) (fun here => ∃ directory, here = some { files with directory } ∧
      tree.Below root files.extension { files with directory })
    (GoesDown modules) := by
  constructor
  rintro - inner name path text ⟨directory, rfl, below⟩ down target
  rcases supplies.source below down target with
    ⟨rfl, rfl, found⟩ | ⟨-, place, -, rfl, holds, rfl, below⟩
  · refine ⟨mem_append_left _ ?_, ⟨_, rfl, below⟩, supplies.sources _ _ found⟩
    obtain ⟨index, there, -⟩ := Option.map_eq_some_iff.1 found
    exact mem_map.2 ⟨_, Array.getElem_mem_toList _, Dict.key_of_find? there⟩
  · refine ⟨mem_append_right _ ?_, ⟨_, rfl, below⟩, supplies.texts _ _ holds.2⟩
    exact mem_map.2 ⟨_, holds.2, rfl⟩

end FileTree.Supplies

theorem not_transGen {leads : String → String → Prop} {path : String}
    (acc : Acc (flip leads) path) : ¬ Relation.TransGen leads path path := by
  induction acc with
  | intro path _ ih =>
    intro chain
    obtain ⟨q, step, back⟩ := Relation.TransGen.head'_iff.1 chain
    exact ih q step (Relation.TransGen.tail' back step)

/-- A file imports another one, where `files` says how files are looked for. -/
def Trail.Leads (trail : Trail) (modules : ModuleMap) (files : FileImports) (first : Nat)
    (path other : String) : Prop :=
  modules.get? path = none ∧ ∃ number file script, trail.files[number]? = some file ∧
    file.name = path ∧ Script.parse file.text (.ofNat (first + number)) = .ok script ∧
    ∃ name ∈ script.imports, ∃ text inner,
      ImportTarget.of modules (some { files with directory := Path.parent path }) name
        = .source other text inner

namespace Compile

/-- Files that are imported by names without `..` are compiled along the walk through the imports,
each of them once. Names that lead to one place are one path, wherever they stand. A cyclic import
is reported exactly where the walk meets a file or module that it is inside of, unless there is an
error before, which comes whatever cyclic imports do. Otherwise no chain of imports leads from a
file back to it, every file that the walk comes to is a module or a file of the tree, and then the
only one at its place; and all imports of it call one function. -/
theorem files_once {tree : FileTree} {root : List String} {modules : ModuleMap}
    {files : FileImports} {script : Script} {s : CompileState} (fresh : s.Unlinked)
    (supplies : tree.Supplies root modules files)
    (down : ∀ name ∈ script.imports, GoesDown modules name) :
    (∀ one other name name' place, tree.Below root files.extension one →
      tree.Below root files.extension other → FileImports.Plain name → FileImports.Plain name' →
      tree.place? (one.path name) = .ok place → tree.place? (other.path name') = .ok place →
      one.path name = other.path name') ∧
    (∀ path, (∃ span t, program { modules, files := some files } script s =
        .error ⟨.cyclicImport path, span⟩ t) ↔
      (∃ last, Walk modules s.files.size (some files) [] script.imports {} (.cycle path) last) ∧
        ¬ ∃ error t, ∀ onCycle, programOr onCycle { modules, files := some files } script s
          = .error error t) ∧
    ∀ program t, Compile.program { modules, files := some files } script s = .ok program t →
      ∃ last, Walk modules s.files.size (some files) [] script.imports {} .done last ∧
        program.files.files = s.files.files ++ last.files.toArray ∧ last.paths.Nodup ∧
        (∀ name ∈ script.imports, last.Reaches modules (some files) name) ∧
        (∀ path, ¬ Relation.TransGen (last.Leads modules files s.files.size) path path) ∧
        (∀ file ∈ last.files, modules.get? file.name = some (.source file.text) ∨
          modules.get? file.name = none ∧ ∃ place, tree.Holds place file ∧
            ∀ other ∈ last.files, tree.Holds place other → modules.get? other.name = none →
              other = file) ∧
        t.imported.map Prod.fst = last.imports ∧
        ∀ path index, (path, index) ∈ t.imported →
          (path ∈ last.paths ∧ ∃ ref, t.compiled.lookup path = some (.function ref) ∧
            program.constants[index]? = some (.function ref)) ∨
          ∃ entries, modules.get? path = some (.native entries) ∧
            t.native.lookup path = some index := by
  have within := supplies.pathsWithin
  have ok : ∃ directory, some files = some { files with directory } ∧
      tree.Below root files.extension { files with directory } := ⟨_, rfl, supplies.below⟩
  have enough : (modules.entries.toList.map Prod.fst ++
      tree.files.map fun file => Path.ofParts (root ++ file.1)).length
        ≤ importDepth { modules, files := some files } := by
    rw [length_append, length_map, length_map]
    exact Nat.add_le_add_left supplies.few _
  refine ⟨?_, cyclicImport_iff within ok enough down fresh, fun program t run => ?_⟩
  · intro one other name name' place below below' plain plain' leads leads'
    obtain ⟨here, spot, some, path⟩ := below.path supplies.rooted supplies.ending plain
    obtain ⟨here', spot', some', path'⟩ := below'.path supplies.rooted supplies.ending plain'
    rw [path] at leads ⊢
    rw [path'] at leads' ⊢
    have same := FileTree.place?_ofParts supplies.rooted some spot.named spot.down leads
    rw [FileTree.place?_ofParts supplies.rooted some' spot'.named spot'.down leads'] at same
    cases same
    rfl
  · obtain ⟨last, walk, records⟩ := records_program within ok enough down fresh run
    obtain ⟨reaches, behind⟩ := walk.closed within ok down
    have origin {file : SourceFile} (member : file ∈ last.files) :
        modules.get? file.name = some (.source file.text) ∨
          modules.get? file.name = none ∧ ∃ place, FileTree.Spot place ∧
            file.name = Path.ofParts (root ++ place) ∧ tree.Holds place file := by
      obtain ⟨number, here⟩ := getElem?_of_mem member
      obtain ⟨-, name, ⟨inside, rfl, below⟩, good, inner, target, -⟩ :=
        behind number file (Nat.zero_le _) here
      rcases supplies.source below good target with
        ⟨-, -, found⟩ | ⟨missing, place, spot, path, holds, -⟩
      · exact .inl found
      · exact .inr ⟨missing, place, spot, path, holds⟩
    have distinct := walk.nodup nodup_nil
    obtain ⟨body, u, -, rfl, rfl⟩ := program_eq run
    refine ⟨last, walk, records.files, distinct, reaches, ?_,
      fun file member => ?_, records.imports, ?_⟩
    · have acc := (walk.acyclic (last.Leads modules files s.files.size) ?_ prefix_rfl within ok
        down (fun path member => absurd member not_mem_nil)).1
      · rintro path chain
        obtain ⟨q, ⟨-, number, file, -, here, rfl, -⟩, -⟩ := Relation.TransGen.head'_iff.1 chain
        exact not_transGen (acc _ (mem_map_of_mem (mem_of_getElem? here)) not_mem_nil) chain
      · rintro - inner name path text number script' q ⟨inside, rfl, below⟩ good target here parsed
          ⟨missing, number', file, script'', there, named, parsed', name', member, text',
            inner', target'⟩
        rcases supplies.source below good target with ⟨-, -, found⟩ | ⟨-, -, -, -, -, rfl, -⟩
        · cases missing.symm.trans found
        · obtain rfl : file = .ofText path text := inj_on_of_nodup_map distinct
            (mem_of_getElem? there) (mem_of_getElem? here) named
          have files := List.Nodup.of_map _ distinct
          obtain rfl := (List.getElem?_inj (List.getElem?_eq_some_iff.1 here).1 files).1
              (here.trans there.symm)
          cases parsed.symm.trans parsed'
          exact ⟨name', member, text', inner', target'⟩
    · rcases origin member with found | ⟨missing, place, spot, path, holds⟩
      · exact .inl found
      · refine .inr ⟨missing, place, holds, fun other member' holds' missing' => ?_⟩
        rcases origin member' with found | ⟨-, place', spot', path', holds''⟩
        · cases missing'.symm.trans found
        · cases holds'.1.symm.trans holds''.1
          exact inj_on_of_nodup_map distinct member' member (path'.trans path.symm)
    · intro path index member
      rcases records.imported member with ⟨ref, known, here⟩ | found
      · exact .inl ⟨(records.compiled (mem_of_lookup known)).1, ref, known, here⟩
      · obtain ⟨⟨entries, native⟩, -⟩ := records.native found
        exact .inr ⟨entries, native, found⟩

/-- Two files in a directory, one of which imports the other. -/
def neighbours : FileTree :=
  { root := "/r",
    files := [(["d", "a.skf"], "export import(\"b\")"), (["d", "b.skf"], "export 1")] }

theorem plain_of_parts (relative : name.toList.head? ≠ some '/') (down : ".." ∉ Path.parts name) :
    FileImports.Plain name := by
  refine ⟨?_, down⟩
  rw [Path.isAbsolute, String.startsWith_char_eq_head?, beq_eq_false_iff_ne]
  exact relative

theorem supplies_neighbours :
    neighbours.Supplies ["r"] .empty { current := "/r", read := neighbours.read } := by
  have imports (number : UInt16) :
      (Script.parse "export import(\"b\")" number).toOption.map Script.imports = some ["b"] := by
    cbv
  have nothing (number : UInt16) :
      (Script.parse "export 1" number).toOption.map Script.imports = some [] := by
    cbv
  refine ⟨⟨by decide, by decide, by decide⟩, rfl, rfl, rfl, by decide, by decide,
    fun name found => ?_, fun name text found => ?_, ?_⟩
  · exact absurd (Dict.get?_eq _ _) found
  · rw [Dict.get?_eq] at found
    cases found
  · rintro place text member name ⟨number, script, parsed, imported⟩
    have known := imports number
    have known' := nothing number
    rcases mem_cons.1 member with same | later
    · cases same
      rw [parsed] at known
      rw [Option.some.inj known, mem_singleton] at imported
      rw [imported]
      exact .inr (plain_of_parts (by decide) (by decide))
    · cases mem_singleton.1 later
      rw [parsed] at known'
      rw [Option.some.inj known'] at imported
      cases imported

theorem files_once_neighbours :
    ∃ program t, ∃ last :
        Trail, Compile.program { files := some { current := "/r", read := neighbours.read } }
        (importingAll ["d/a", "./d//b.skf", "d/b"]) { table := .withBuiltins } = .ok program t ∧
      last.imports = ["/r/d/b.skf", "/r/d/b.skf", "/r/d/a.skf", "/r/d/b.skf"] ∧ last.paths.Nodup ∧
      program.files.files = last.files.toArray := by
  have imported : importedBy (Compile.program
      { files := some { current := "/r", read := neighbours.read } }
      (importingAll ["d/a", "./d//b.skf", "d/b"]) { table := .withBuiltins })
        = ["/r/d/b.skf", "/r/d/b.skf", "/r/d/a.skf", "/r/d/b.skf"] := by
    decide +kernel
  have down : ∀ name ∈ (importingAll ["d/a", "./d//b.skf", "d/b"]).imports,
      GoesDown .empty name := by
    intro name member
    have member : name ∈ ["d/a", "./d//b.skf", "d/b"] := member
    simp only [mem_cons, not_mem_nil, or_false] at member
    rcases member with rfl | rfl | rfl <;> exact .inr (plain_of_parts (by decide) (by decide))
  cases run : Compile.program { files := some { current := "/r", read := neighbours.read } }
      (importingAll ["d/a", "./d//b.skf", "d/b"]) { table := .withBuiltins } with
  | error error t =>
    rw [run] at imported
    exact absurd imported (cons_ne_nil _ _).symm
  | ok program t =>
    rw [run] at imported
    obtain ⟨last, walk, files, distinct, -, -, -, imports, -⟩ :=
      (files_once unlinked_withBuiltins supplies_neighbours down).2.2 program t run
    exact ⟨program, t, last, rfl, imports.symm.trans imported, distinct,
      files.trans (Array.empty_append ..)⟩

/-- What the modules of a program have been compiled to. -/
def compiledBy : EStateM.Result CompileError CompileState Program → List (String × Value)
  | .ok _ t => t.compiled
  | .error _ _ => []

/-- With `..` in its name, a file is another module: it is compiled again. -/
theorem file_compiled_twice :
    compiledBy (Compile.program { files := some { current := "/r", read := neighbours.read } }
        (importingAll ["d/b", "d/../d/b"]) { table := .withBuiltins })
      = [("/r/d/../d/b.skf", .function 1), ("/r/d/b.skf", .function 0)] ∧
    (neighbours.place? "/r/d/../d/b.skf").toOption = some (some ["d", "b.skf"]) ∧
    (neighbours.place? "/r/d/b.skf").toOption = some (some ["d", "b.skf"]) := by
  refine ⟨?_, ?_, ?_⟩ <;> decide +kernel

end Compile

end Skiff
