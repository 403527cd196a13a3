/-!
# Patterns of characters

Regular patterns with a matcher by derivatives: the derivative of a pattern by a character
matches exactly the texts that, with the character put in front, the pattern matches. The
constructing functions keep patterns small and make a pattern that matches nothing visible as
`void`, so that a scan can stop as soon as no continuation can match.
-/

namespace Skiff

/-- A set of characters, given by closed ranges that it holds or leaves out. -/
inductive CharSet where
  | within (ranges : List (Char × Char))
  | outside (ranges : List (Char × Char))
  deriving DecidableEq, Repr

namespace CharSet

private def covers (ranges : List (Char × Char)) (c : Char) : Bool :=
  ranges.any fun (low, high) => low ≤ c && c ≤ high

def contains : CharSet → Char → Bool
  | within ranges, c => covers ranges c
  | outside ranges, c => !covers ranges c

def single (c : Char) : CharSet := within [(c, c)]

def anyOf (chars : List Char) : CharSet := within (chars.map fun c => (c, c))

def noneOf (chars : List Char) : CharSet := outside (chars.map fun c => (c, c))

end CharSet

/-- A regular pattern over characters. -/
inductive Pattern where
  | void
  | blank
  | one (set : CharSet)
  | seq (first second : Pattern)
  | alt (left right : Pattern)
  | star (body : Pattern)
  deriving DecidableEq, Repr

namespace Pattern

/-- Whether the pattern matches the empty text. -/
def nullable : Pattern → Bool
  | void => false
  | blank => true
  | one _ => false
  | seq first second => first.nullable && second.nullable
  | alt left right => left.nullable || right.nullable
  | star _ => true

/-- One pattern after the other, kept free of needless `void` and `blank`. -/
def andThen : Pattern → Pattern → Pattern
  | void, _ => void
  | blank, second => second
  | _, void => void
  | first, second => seq first second

/-- Either pattern, kept free of needless `void`. -/
def orElse : Pattern → Pattern → Pattern
  | void, right => right
  | left, void => left
  | left, right => alt left right

/-- The pattern of what may follow the character `c`. -/
def after (c : Char) : Pattern → Pattern
  | void => void
  | blank => void
  | one set => if set.contains c then blank else void
  | seq first second =>
    let inFirst := (first.after c).andThen second
    if first.nullable then inFirst.orElse (second.after c) else inFirst
  | alt left right => (left.after c).orElse (right.after c)
  | star body => (body.after c).andThen (star body)

def isVoid : Pattern → Bool
  | void => true
  | _ => false

/-- The text itself. -/
def word (text : List Char) : Pattern :=
  text.foldr (fun c rest => (one (.single c)).andThen rest) blank

/-- One or more times. -/
def plus (body : Pattern) : Pattern := seq body (star body)

/-- Zero times or once. -/
def optional (body : Pattern) : Pattern := alt body blank

/-- One after the other, from left to right. -/
def sequence : List Pattern → Pattern
  | [] => blank
  | [last] => last
  | first :: rest => seq first (sequence rest)

end Pattern

/-- What a scan found: the best rule with the length of its match, if any rule matched, and
how many characters could still have begun a match. -/
structure Scan (κ : Type) where
  found : Option (κ × Nat)
  reached : Nat

namespace Scan

/-- Follows all rules at once, character by character, until none can match any more. Later
matches are longer and replace earlier ones; of rules that match at the same place the one
that stands first is taken. -/
def follow {κ : Type} (live : List (κ × Pattern)) (found : Option (κ × Nat)) (reached : Nat) :
    List Char → Scan κ
  | [] => { found, reached }
  | c :: rest =>
    let live := live.filterMap fun (rule, pattern) =>
      match pattern.after c with
      | .void => none
      | next => some (rule, next)
    match live with
    | [] => { found, reached }
    | _ =>
      let found := match live.find? fun (_, pattern) => pattern.nullable with
        | some (rule, _) => some (rule, reached + 1)
        | none => found
      follow live found (reached + 1) rest

/-- The longest match of any rule at the start of a text. -/
def longest {κ : Type} (rules : List (κ × Pattern)) (text : List Char) : Scan κ :=
  follow rules none 0 text

end Scan

end Skiff
