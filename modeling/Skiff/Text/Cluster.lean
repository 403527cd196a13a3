import Skiff.Text.BreakClass

/-!
# Clusters

A cluster is what readers take for one character. Texts are divided into clusters by the classes
of their characters.
-/

namespace Skiff

namespace BreakClass

/-- Whether a linker stands among the marks at the end of a text, the last first, and a consonant
before them. -/
def endsLinked (before : List BreakClass) : Bool :=
  (before.takeWhile isLinking).contains linker
    && (before.dropWhile isLinking).head? = some consonant

/-- Whether a character belongs to the cluster before it, if the text so far has the classes
`before`, the last first. -/
def joins (before : List BreakClass) (next : BreakClass) : Bool :=
  match before with
  | [] => false
  | last :: earlier =>
    if last.isControl || next.isControl then last = carriageReturn && next = lineFeed
    else if next.joinsBack || last = prepended then true
    else
      match next with
      | leading | openSyllable | closedSyllable => last = leading
      | vowel => last = leading || last = vowel || last = openSyllable
      | trailing => last = vowel || last = openSyllable || last = trailing || last = closedSyllable
      | consonant => endsLinked before
      | pictograph => last = joiner && (earlier.dropWhile isMark).head? = some pictograph
      | regional => (before.takeWhile (· = regional)).length % 2 = 1
      | _ => false

end BreakClass

/-- A text that is being divided: its classes, its clusters and the characters of these, the last
first in all of them. -/
structure Divided where
  classes : List BreakClass := []
  clusters : List (List Char) := []

/-- Adds a character to the last cluster or as a new one. -/
def Divided.add (divided : Divided) (c : Char) : Divided :=
  let kind := BreakClass.ofChar c
  let clusters := match divided.clusters with
    | cluster :: done =>
      if BreakClass.joins divided.classes kind then (c :: cluster) :: done
      else [c] :: cluster :: done
    | [] => [[c]]
  { classes := kind :: divided.classes, clusters }

/-- The clusters of a text. -/
def clusters (text : List Char) : List (List Char) :=
  ((text.foldl Divided.add {}).clusters.map List.reverse).reverse

end Skiff
