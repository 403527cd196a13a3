import Skiff.Compile.Module
import Skiff.Proofs.Source.Position

/-!
# Paths and places

A path from the root that has no empty parts and no `.` is told by its parts. The paths of imported
modules are of this kind, and unless a name goes up with `..`, there is just one of them for every
file of a tree.
-/

namespace Skiff

open List String

namespace Path

/-- What can stand between two slashes of a path that has been made absolute. -/
def Named (part : String) : Prop := part ≠ "" ∧ part ≠ "." ∧ '/' ∉ part.toList

instance (part : String) : Decidable (Named part) := inferInstanceAs (Decidable (_ ∧ _))

/-- The path from the root with the given parts. -/
def ofParts (parts : List String) : String := "/" ++ intercalate "/" parts

theorem pieces_slash (left right : String) :
    pieces (left ++ "/" ++ right) = pieces left ++ pieces right := by
  have slash : (left ++ "/" ++ right).toList = left.toList ++ '/' :: right.toList := by
    simp [toList_append]
  rw [pieces, slash, splitOn_append_cons_self, map_append]
  rfl

variable {part : String}

theorem pieces_of_no_slash (none : '/' ∉ part.toList) : pieces part = [part] := by
  rw [pieces, splitOn_eq_singleton none, map_singleton, String.ofList_toList]

theorem parts_slash (left right : String) :
    parts (left ++ "/" ++ right) = parts left ++ parts right := by
  rw [parts, pieces_slash, filter_append]
  rfl

theorem parts_empty : parts "" = [] := by
  rw [parts, pieces_of_no_slash (by simp)]
  simp

theorem parts_root (path : String) : parts ("/" ++ path) = parts path := by
  have slash := parts_slash "" path
  rw [empty_append, parts_empty, nil_append] at slash
  exact slash

variable {names : List String} {path : String}

theorem pieces_intercalate (nonempty : names ≠ []) (named : ∀ name ∈ names, Named name) :
    pieces (intercalate "/" names) = names := by
  have away : ∀ chars ∈ names.map String.toList, '/' ∉ chars :=
    forall_mem_map.2 fun name member => (named name member).2.2
  rw [pieces, toList_intercalate, show "/".toList = ['/'] from rfl,
    splitOn_intercalate '/' away (by simpa using nonempty)]
  simp

theorem parts_intercalate (named : ∀ name ∈ names, Named name) :
    parts (intercalate "/" names) = names := by
  by_cases none : names = []
  · rw [none]
    exact parts_empty
  · rw [parts, pieces_intercalate none named]
    exact filter_eq_self.2 fun name member =>
      decide_eq_true ⟨(named name member).1, (named name member).2.1⟩

theorem parts_ofParts (named : ∀ name ∈ names, Named name) : parts (ofParts names) = names := by
  rw [ofParts, parts_root, parts_intercalate named]

theorem slash_not_mem {chars piece : List Char} (member : piece ∈ chars.splitOn '/') :
    '/' ∉ piece := by
  by_cases slash : '/' ∈ chars
  · obtain ⟨first, rest, split, none⟩ := eq_append_cons_of_mem slash
    rw [split, splitOn_append_cons_self_of_not_mem none] at member
    rcases mem_cons.1 member with rfl | later
    · exact none
    · exact slash_not_mem later
  · rw [splitOn_eq_singleton slash] at member
    exact mem_singleton.1 member ▸ slash
termination_by chars.length
decreasing_by rw [split, List.length_append, List.length_cons]; omega

theorem named_of_mem_parts (member : part ∈ parts path) : Named part := by
  obtain ⟨inside, plain⟩ := mem_filter.1 member
  obtain ⟨piece, split, rfl⟩ := mem_map.1 inside
  have plain := of_decide_eq_true plain
  refine ⟨plain.1, plain.2, ?_⟩
  rw [toList_ofList]
  exact slash_not_mem split

/-! ## Putting paths together -/

section
variable {left right names : List String}

theorem toList_ofParts (names : List String) :
    (ofParts names).toList = '/' :: (intercalate "/" names).toList := by
  rw [ofParts, toList_append]
  rfl

theorem ofParts_append (nonempty : left ≠ []) (nonempty' : right ≠ []) :
    ofParts left ++ "/" ++ intercalate "/" right = ofParts (left ++ right) := by
  rw [ofParts, ofParts, intercalate_append_of_ne_nil nonempty nonempty']
  simp only [String.append_assoc]

theorem isEmpty_of_cons {char : Char} {chars : List Char}
    (start : path.toList = char :: chars) : path.isEmpty = false := by
  rw [String.isEmpty_eq_false_iff, Ne, ← String.toList_eq_nil_iff, start]
  exact cons_ne_nil _ _

section
variable (nonempty : names ≠ []) (named : ∀ name ∈ names, Named name)
include nonempty named

/-- A path with parts does not end with a slash. -/
theorem getLast?_ofParts : (ofParts names).toList.getLast? ≠ some '/' := by
  obtain ⟨init, name, rfl⟩ := (eq_nil_or_concat' names).resolve_left nonempty
  have last := named name (by simp)
  have whole : ∃ front, (ofParts (init ++ [name])).toList = front ++ name.toList := by
    by_cases none : init = []
    · rw [none, ofParts, nil_append, String.intercalate_singleton, toList_append]
      exact ⟨_, rfl⟩
    · rw [← ofParts_append none (cons_ne_nil _ _), String.intercalate_singleton, toList_append]
      exact ⟨_, rfl⟩
  obtain ⟨front, whole⟩ := whole
  rw [whole, getLast?_append_of_ne_nil _ (mt toList_eq_nil_iff.1 last.1)]
  exact fun slash => last.2.2 (mem_of_getLast? slash)

theorem head?_intercalate :
    ∃ char rest, (intercalate "/" names).toList = char :: rest ∧ char ≠ '/' := by
  cases names with
  | nil => exact absurd rfl nonempty
  | cons name names =>
    obtain ⟨nonempty', -, slash⟩ := named name (mem_cons_self ..)
    have start : ∃ rest, (intercalate "/" (name :: names)).toList = name.toList ++ rest := by
      cases names with
      | nil => exact ⟨[], by rw [String.intercalate_singleton, append_nil]⟩
      | cons other names =>
        rw [String.intercalate_cons_cons, String.append_assoc, String.toList_append]
        exact ⟨_, rfl⟩
    obtain ⟨rest, start⟩ := start
    cases chars : name.toList with
    | nil => exact absurd (toList_eq_nil_iff.1 chars) nonempty'
    | cons char more =>
      refine ⟨char, more ++ rest, by rw [start, chars]; rfl, ?_⟩
      rintro rfl
      rw [chars] at slash
      exact slash (mem_cons_self ..)

end

end

theorem isAbsolute_ofParts (names : List String) : isAbsolute (ofParts names) = true := by
  rw [isAbsolute, startsWith_char_eq_head?, toList_ofParts]
  rfl

theorem endsWith_slash (last : path.toList.getLast? ≠ some '/') : path.endsWith '/' = false := by
  rw [endsWith_char_eq_getLast?, beq_eq_false_iff_ne]
  exact last

section
variable {directory path : String}

theorem parts_join (relative : isAbsolute path = false) :
    parts (join directory path) = parts directory ++ parts path := by
  rw [join, relative, Bool.false_or]
  by_cases empty : directory.isEmpty = true
  · rw [if_pos empty, String.isEmpty_iff.1 empty, parts_empty, nil_append]
  rw [if_neg empty]
  by_cases slash : directory.endsWith '/' = true
  · obtain ⟨front, rfl⟩ := endsWith_char_iff_exists_append.1 slash
    have last := parts_slash front ""
    rw [append_empty, parts_empty, append_nil] at last
    have same : singleton '/' = "/" := rfl
    rw [if_pos slash, same, parts_slash, last]
  · rw [if_neg slash, parts_slash]

theorem getLast?_join (nonempty : path ≠ "") :
    (join directory path).toList.getLast? = path.toList.getLast? := by
  have chars : path.toList ≠ [] := fun none => nonempty (toList_eq_nil_iff.1 none)
  rw [join]
  split_ifs
  · rfl
  · rw [toList_append, getLast?_append_of_ne_nil _ chars]
  · rw [toList_append, getLast?_append_of_ne_nil _ chars]

/-- A relative path starts from the current directory. -/
theorem absolute_relative {root : List String} (rooted : root ≠ [])
    (named : ∀ name ∈ root, Named name) (relative : isAbsolute path = false)
    (last : path.toList.getLast? ≠ some '/') (some : parts path ≠ []) :
    absolute (ofParts root) path = ofParts (root ++ parts path) := by
  have nonempty : path.isEmpty = false := by
    rw [String.isEmpty_eq_false_iff]
    rintro rfl
    exact some parts_empty
  have named' : ∀ name ∈ parts path, Named name := fun name => named_of_mem_parts
  obtain ⟨char, rest, start, other⟩ := head?_intercalate some named'
  have inside : isAbsolute (intercalate "/" (parts path)) = false := by
    rw [isAbsolute, startsWith_char_eq_head?, start]
    simpa using other
  have end_ := endsWith_slash (getLast?_ofParts rooted named)
  simp only [absolute, nonempty, relative, isEmpty_of_cons start, join, inside,
    isEmpty_of_cons (toList_ofParts root), end_, endsWith_slash last,
    Bool.not_false, Bool.false_and, Bool.or_false, Bool.false_eq_true, if_false, if_true]
  exact ofParts_append rooted some

/-- A path below a directory stays below it. -/
theorem absolute_join (current : String) (nonempty : names ≠ [])
    (named : ∀ name ∈ names, Named name) (relative : isAbsolute path = false)
    (last : path.toList.getLast? ≠ some '/') (some : parts path ≠ []) :
    absolute current (join (ofParts names) path) = ofParts (names ++ parts path) := by
  have notEmpty : path ≠ "" := by
    rintro rfl
    exact some parts_empty
  have joined : join (ofParts names) path = ofParts names ++ "/" ++ path := by
    rw [join, relative, isEmpty_of_cons (toList_ofParts names),
      endsWith_slash (getLast?_ofParts nonempty named)]
    rfl
  obtain ⟨char, rest, start, other⟩ := head?_intercalate nonempty named
  have chars : (ofParts names ++ "/" ++ path).toList
      = '/' :: char :: (rest ++ '/' :: path.toList) := by
    rw [toList_append, toList_append, toList_ofParts, start]
    simp
  have rooted : isAbsolute (ofParts names ++ "/" ++ path) = true := by
    rw [isAbsolute, startsWith_char_eq_head?, chars]
    rfl
  have single : (ofParts names ++ "/" ++ path).startsWith "//" = false := by
    rw [← Bool.not_eq_true, startsWith_string_iff, chars]
    simpa using other.symm
  have end_ : (ofParts names ++ "/" ++ path).endsWith '/' = false := by
    apply endsWith_slash
    rw [← joined, getLast?_join notEmpty]
    exact last
  have members : parts (ofParts names ++ "/" ++ path) = names ++ parts path := by
    rw [parts_slash, parts_ofParts named]
  rw [joined]
  simp only [absolute, isEmpty_of_cons chars, rooted, single, end_, members, Bool.not_true,
    Bool.false_and, Bool.false_eq_true, if_false]
  rfl

end

theorem dropWhile_slash (last : path.toList.getLast? ≠ some '/') :
    path.toList.reverse.dropWhile (· = '/') = path.toList.reverse := by
  rw [← head?_reverse] at last
  cases reversed : path.toList.reverse with
  | nil => rfl
  | cons char chars =>
    rw [reversed] at last
    exact dropWhile_cons_of_neg (by simpa using last)

/-- The directory of a path is the path without its last part. -/
theorem parent_ofParts {name : String} (nonempty : names ≠ []) (named : ∀ name ∈ names, Named name)
    (last : Named name) : parent (ofParts (names ++ [name])) = ofParts names := by
  have chars : (ofParts (names ++ [name])).toList.reverse
      = name.toList.reverse ++ '/' :: (ofParts names).toList.reverse := by
    rw [← ofParts_append nonempty (cons_ne_nil _ _), String.intercalate_singleton]
    simp
  have trimmed := dropWhile_slash (@getLast?_ofParts (names ++ [name]) (by simp)
    (forall_mem_append.2 ⟨named, forall_mem_singleton.2 last⟩))
  have cut : (name.toList.reverse ++ '/' :: (ofParts names).toList.reverse).dropWhile (· ≠ '/')
      = '/' :: (ofParts names).toList.reverse := by
    rw [dropWhile_append_of_pos fun char member => decide_eq_true ?_]
    · simp
    · rintro rfl
      exact last.2.2 (mem_reverse.1 member)
  have drop : ('/' :: (ofParts names).toList.reverse).dropWhile
      (· = '/') = (ofParts names).toList.reverse := by
    rw [dropWhile_cons_of_pos (by simp), dropWhile_slash (getLast?_ofParts nonempty named)]
  simp only [parent, trimmed, toList_ofList, reverse_reverse]
  rw [chars, cut, drop, reverse_reverse, ofList_toList, isEmpty_of_cons (toList_ofParts names)]
  rfl

/-! ## Endings of file names -/

theorem splitOn_append (chars : List Char) {tail : List Char} (away : '/' ∉ tail) : ∃ init last,
    chars.splitOn '/' = init ++ [last] ∧ (chars ++ tail).splitOn '/' = init ++ [last ++ tail] := by
  by_cases slash : '/' ∈ chars
  · obtain ⟨front, last, rfl, none⟩ := exists_last_cut slash
    have none' : '/' ∉ last ++ tail := by simp [none, away]
    refine ⟨front.splitOn '/', last, ?_, ?_⟩
    · rw [splitOn_append_cons_self, splitOn_eq_singleton none]
    · rw [List.append_assoc, List.cons_append, splitOn_append_cons_self,
        List.splitOn_eq_singleton none']
  · exact ⟨[], chars, splitOn_eq_singleton slash, splitOn_eq_singleton (by simp [slash, away])⟩

/-- What file names end with: no slash, and too long for `.` and `..`. -/
def Ending (ending : String) : Prop := '/' ∉ ending.toList ∧ 2 < ending.toList.length

instance (ending : String) : Decidable (Ending ending) := inferInstanceAs (Decidable (_ ∧ _))

/-- An ending belongs to the last part of a path. -/
theorem parts_ending {ending : String} (path : String) (short : Ending ending) : ∃ init last,
    pieces path = init ++ [last] ∧
    parts (path ++ ending) = init.filter (fun part => part ≠ "" ∧ part ≠ ".") ++
      [last ++ ending] := by
  obtain ⟨init, last, plain, longer⟩ := splitOn_append path.toList short.1
  have length : 2 < (String.ofList last ++ ending).toList.length := by
    rw [String.toList_append, List.length_append]
    exact Nat.lt_add_left _ short.2
  have notEmpty : String.ofList last ++ ending ≠ "" := by
    intro empty
    rw [empty] at length
    exact absurd length (by decide)
  have notDot : ofList last ++ ending ≠ "." := by
    intro dot
    rw [dot] at length
    exact absurd length (by decide)
  refine ⟨init.map ofList, ofList last, ?_, ?_⟩
  · rw [pieces, plain, map_append, map_singleton]
  · rw [parts, pieces, toList_append, longer, map_append, map_singleton,
      filter_append, ofList_append, ofList_toList]
    congr 1
    simp [notEmpty, notDot]

end Path

namespace FileImports

/-- The name of the file that a module name stands for. -/
def file (files : FileImports) (name : String) : String :=
  if name.endsWith files.extension then name else name ++ files.extension

theorem path_eq (files : FileImports) (name : String) :
    files.path name = Path.absolute files.current (Path.join files.directory (files.file name)) :=
      rfl

theorem exists_file (files : FileImports) (name : String) :
    ∃ front, files.file name = front ++ files.extension ∧
      (front = name ∨ files.file name = name) := by
  rw [file]
  by_cases ends : name.endsWith files.extension = true
  · rw [if_pos ends]
    rw [endsWith_eq_endsWith_toSlice, Slice.endsWith_string_iff, copy_toSlice] at ends
    obtain ⟨front, whole⟩ := ends
    refine ⟨ofList front, ?_, .inr rfl⟩
    rw [← ofList_toList (s := name), ← whole, ofList_append, ofList_toList]
  · rw [if_neg ends]
    exact ⟨name, rfl, .inl rfl⟩

/-- A module name that starts from the directory of the importing file and never goes up. -/
structure Plain (name : String) : Prop where
  relative : Path.isAbsolute name = false
  down : ".." ∉ Path.parts name

section
variable {files : FileImports} {name : String} (ending : Path.Ending files.extension)
include ending

theorem parts_file_ne_nil (name : String) : Path.parts (files.file name) ≠ [] := by
  obtain ⟨front, whole, -⟩ := exists_file files name
  obtain ⟨init, last, -, parts⟩ := Path.parts_ending front ending
  rw [whole, parts]
  exact append_ne_nil_of_right_ne_nil _ (cons_ne_nil _ _)

theorem getLast?_file (name : String) : (files.file name).toList.getLast? ≠ some '/' := by
  obtain ⟨front, whole, -⟩ := exists_file files name
  have nonempty : files.extension.toList ≠ [] := by
    intro empty
    have length := ending.2
    rw [empty] at length
    exact absurd length (by decide)
  rw [whole, toList_append, getLast?_append_of_ne_nil _ nonempty]
  intro slash
  exact ending.1 (mem_of_getLast? slash)

theorem Plain.file_relative (plain : Plain name) : Path.isAbsolute (files.file name) = false := by
  obtain ⟨front, whole, same⟩ := exists_file files name
  rcases same with rfl | same
  · have relative := plain.relative
    rw [Path.isAbsolute, startsWith_char_eq_head?] at relative ⊢
    rw [whole, toList_append]
    cases chars : front.toList with
    | nil =>
      rw [nil_append, beq_eq_false_iff_ne]
      intro slash
      exact ending.1 (mem_of_head? slash)
    | cons char rest =>
      rw [chars] at relative
      exact relative
  · rw [same]
    exact plain.relative

theorem Plain.file_down (plain : Plain name) : ".." ∉ Path.parts (files.file name) := by
  obtain ⟨front, whole, same⟩ := exists_file files name
  rcases same with rfl | same
  · obtain ⟨init, last, pieces, parts⟩ := Path.parts_ending front ending
    rw [whole, parts, mem_append, mem_singleton]
    rintro (early | late)
    · apply plain.down
      rw [Path.parts, pieces, filter_append]
      exact mem_append_left _ early
    · have length := ending.2
      have longer := congrArg (·.toList.length) late
      simp only [String.toList_append, List.length_append] at longer
      have two : "..".toList.length = 2 := rfl
      omega
  · rw [same]
    exact plain.down

end

end FileImports

/-! ## Places of files -/

namespace FileTree

/-- The parts of the path of a tree's root. -/
structure Root (tree : FileTree) (root : List String) : Prop where
  written : tree.root = Path.ofParts root
  below : root ≠ []
  named : ∀ name ∈ root, Path.Named name

variable {found : Option (List String)}

theorem walk_eq_ok {tree : FileTree} {steps place : List String}
    (named : ∀ step ∈ steps, Path.Named step)
    (down : ".." ∉ steps) (walk : tree.walk steps (some place) = .ok found) :
      found = some (place ++ steps) := by
  induction steps generalizing place with
  | nil =>
    rw [FileTree.walk, Except.ok.injEq] at walk
    rw [append_nil]
    exact walk.symm
  | cons step steps ih =>
    have here := (named step (mem_cons_self ..)).2.1
    have up : step ≠ ".." := fun same => down (same ▸ mem_cons_self ..)
    rw [FileTree.walk] at walk
    split at walk
    · rw [if_neg here, if_neg up] at walk
      split_ifs at walk
      have rest := ih (fun other member => named other (mem_cons_of_mem _ member))
        (fun member => down (mem_cons_of_mem _ member)) walk
      rw [rest, List.append_assoc, List.singleton_append]
    · cases walk
    · cases walk

section
variable {tree : FileTree} {root place : List String}

theorem steps_ofParts (nonempty : place ≠ []) (named : ∀ name ∈ place, Path.Named name) :
    Path.steps (Path.ofParts place) = place := by
  have pieces : Path.pieces (Path.ofParts place) = "" :: place := by
    have slash := Path.pieces_slash "" (intercalate "/" place)
    have empty : Path.pieces "" = [""] := Path.pieces_of_no_slash not_mem_nil
    rw [empty_append, Path.pieces_intercalate nonempty named, empty] at slash
    exact slash
  have kept : place.filter (· ≠ "") = place :=
    filter_eq_self.2 fun name member => decide_eq_true (named name member).1
  rw [Path.steps, Path.endsWith_slash (Path.getLast?_ofParts nonempty named), pieces,
    filter_cons_of_neg (by simp), kept]
  rfl

/-- A path below the root of a tree leads to the place its parts spell, or nowhere. -/
theorem place?_ofParts (rooted : tree.Root root) (nonempty : place ≠ [])
    (named : ∀ name ∈ place, Path.Named name) (down : ".." ∉ place)
    (leads : tree.place? (Path.ofParts (root ++ place)) = .ok found) : found = some place := by
  have whole : Path.ofParts (root ++ place) = tree.root ++ Path.ofParts place := by
    rw [rooted.written, ← Path.ofParts_append rooted.below nonempty, String.append_assoc]
    rfl
  have start : (Path.ofParts (root ++ place)).startsWith tree.root = true := by
    rw [startsWith_string_iff, whole, toList_append]
    exact prefix_append ..
  have rest : ofList ((Path.ofParts (root ++ place)).toList.drop tree.root.length)
      = Path.ofParts place := by
    rw [whole, toList_append, ← length_toList, drop_left, ofList_toList]
  rw [FileTree.place?] at leads
  split_ifs at leads
  rw [rest, steps_ofParts nonempty named] at leads
  exact walk_eq_ok named down leads

variable {text : String}

theorem mem_of_node? (node : tree.node? place = some (.file text)) :
    (place, text) ∈ tree.files := by
  rw [FileTree.node?] at node
  split at node
  · rename_i other text' first
    have same := find?_some first
    rw [beq_iff_eq] at same
    cases node
    cases same
    exact mem_of_find?_eq_some first
  · split_ifs at node
    cases node

/-- A path below the root that can be read is the path of a file of the tree. -/
theorem of_read (rooted : tree.Root root) (nonempty : place ≠ [])
    (named : ∀ name ∈ place, Path.Named name)
    (down : ".." ∉ place) (read : tree.read (Path.ofParts (root ++ place)) = .ok text) :
    tree.place? (Path.ofParts (root ++ place)) = .ok (some place) ∧ (place, text) ∈ tree.files := by
  unfold FileTree.read at read
  split at read
  · cases read
  · cases read
  · rename_i other leads
    cases place?_ofParts rooted nonempty named down leads
    split at read
    · cases read
      exact ⟨leads, mem_of_node? ‹_›⟩
    · cases read
    · cases read

end

end FileTree

end Skiff
