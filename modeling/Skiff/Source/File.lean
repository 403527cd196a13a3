import Skiff.Source.Span

/-!
# Source files and positions

A source file remembers where each of its lines starts, so that a byte offset can be turned
into a line and a column, both counted from one. A `FileSet` holds the files that take part
in one compilation; the file number of a span is an index into it.
-/

namespace Skiff

/-- The offsets at which the lines of a text start: zero and the place after each line feed. -/
def lineStarts (bytes : Array UInt8) : Array Nat :=
  (bytes.foldl (fun (found, offset) byte =>
    (if byte = 10 then found.push (offset + 1) else found, offset + 1)) (#[0], 0)).1

/-- Looks for an offset among ascending places, from `low` on and before `high`, in the half that it
must be in: its index, or as an error the index that it would have. -/
def findPlace (places : Array Nat) (offset low high : Nat) : Except Nat Nat :=
  if low < high then
    let middle := low + (high - low) / 2
    let place := places.getD middle 0
    if place = offset then .ok middle
    else if place < offset then findPlace places offset (middle + 1) high
    else findPlace places offset low middle
  else .error low
termination_by high - low
decreasing_by all_goals omega

/-- One named text together with the byte offsets at which its lines start. -/
structure SourceFile where
  name : String
  text : String
  lineStarts : Array Nat

namespace SourceFile

def ofText (name text : String) : SourceFile :=
  { name, text, lineStarts := Skiff.lineStarts text.toUTF8.data }

/-- The length of the text in bytes. -/
def byteSize (file : SourceFile) : Nat := file.text.utf8ByteSize

def lineCount (file : SourceFile) : Nat := file.lineStarts.size

/-- The line and the column of a byte offset, both counted from one. The line is the one that starts
at the offset, or else the one before the first that starts behind it; the column counts bytes. -/
def lineColumn (file : SourceFile) (offset : Nat) : Nat × Nat :=
  let line := match findPlace file.lineStarts offset 0 file.lineStarts.size with
    | .ok line => line
    | .error next => next - 1
  (line + 1, offset - file.lineStarts.getD line 0 + 1)

end SourceFile

/-- A resolved place in a source file. Line zero stands for an unknown place. -/
structure Position where
  file : String
  line : Nat
  column : Nat
  deriving DecidableEq, Repr

namespace Position

def unknown : Position := ⟨"", 0, 0⟩

def isKnown (position : Position) : Bool := 0 < position.line

/-- `-` for an unknown place, else `line:column` with the file name, if any, before it. -/
def render (position : Position) : String :=
  if !position.isKnown then "-"
  else
    let place := s!"{position.line}:{position.column}"
    if position.file.isEmpty then place else s!"{position.file}:{place}"

end Position

/-- The source files of one compilation in the order in which they were added. -/
structure FileSet where
  files : Array SourceFile := #[]

namespace FileSet

/-- Adds a file and returns its number, which is the index cut to 16 bits. -/
def add (set : FileSet) (name text : String) : FileSet × UInt16 :=
  -- The number is taken first, so that the array can grow in place.
  let number := UInt16.ofNat set.files.size
  ({ files := set.files.push (.ofText name text) }, number)

def file? (set : FileSet) (number : UInt16) : Option SourceFile := set.files[number.toNat]?

def size (set : FileSet) : Nat := set.files.size

/-- The position of the start of a span; unknown if the file is missing or shorter. -/
def position (set : FileSet) (span : Span) : Position :=
  match set.file? span.file with
  | some file =>
    if span.start ≤ file.byteSize then
      let (line, column) := file.lineColumn span.start
      { file := file.name, line, column }
    else .unknown
  | none => .unknown

end FileSet

end Skiff
