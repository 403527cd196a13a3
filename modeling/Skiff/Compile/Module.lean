import Skiff.Source.FileTree
import Skiff.Value.Basic

/-!
# Modules

What a program can import by name: source text that is compiled on its first import, or a table
of values. Other names are paths of files if files may be imported.
-/

namespace Skiff

inductive Module where
  | source (text : String)
  | native (entries : Dict Value)

/-- Modules by name, in the order in which the names were added. -/
abbrev ModuleMap := Dict Module

/-- The value of a native module: a new immutable map of its entries. -/
def Module.value (heap : Heap) : Module → Option (Value × Heap)
  | source _ => none
  | native entries =>
    let (value, heap) := heap.newMap entries
    some (value.immutable, heap)

/-- Where the files of imported modules are looked for. -/
structure FileImports where
  /-- The directory that relative paths start from. -/
  current : String
  directory : String := "."
  /-- What file names end with; it is added to names that do not. -/
  extension : String := ".skf"
  read : String → Except ReadError String
  /-- How many files may be open inside one another: at least as many as there are to import. -/
  depth : Nat := 0x10000

/-- The path of the file that a module name stands for. -/
def FileImports.path (files : FileImports) (name : String) : String :=
  let file := if name.endsWith files.extension then name else name ++ files.extension
  Path.absolute files.current (Path.join files.directory file)

end Skiff
