/-!
# Spans

A span is a half-open range of byte offsets inside one source file. Files are named by a
16-bit number, so the number of a file wraps around after 65536 files.
-/

namespace Skiff

/-- The bytes from `start` up to, but not including, `stop` of the file numbered `file`. A text is
taken to be shorter than `2 ^ 32` bytes, so that offsets need no bound. -/
structure Span where
  start : Nat := 0
  stop : Nat := 0
  file : UInt16 := 0
  deriving DecidableEq, Repr, Inhabited

namespace Span

/-- The number of bytes covered; a span that ends before it starts covers none. -/
def length (span : Span) : Nat := span.stop - span.start

def isEmpty (span : Span) : Bool := span.length == 0

/-- The smallest span that contains both. Spans of different files have no common cover, and
the first one is kept. -/
def merge (a b : Span) : Span :=
  if a.file = b.file then
    { start := min a.start b.start, stop := max a.stop b.stop, file := a.file }
  else a

end Span

end Skiff
