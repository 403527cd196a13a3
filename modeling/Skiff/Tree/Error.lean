import Skiff.Source.Span
import Skiff.Token.Kind
import Skiff.Token.Literal

/-!
# Errors of parsing

Why a text is not a script, and the wording of it.
-/

namespace Skiff

/-- What could have stood where something else was found. -/
inductive Expected where
  | token (kind : Kind)
  | terminator
  | expression
  | mapKey
  deriving DecidableEq, Repr

def Expected.text : Expected → String
  | token kind => kind.name
  | terminator => "';' or newline"
  | expression => "expression"
  | mapKey => "map key"

/-- What was found: a token by its kind, or input that is no token by its text. -/
inductive Found where
  | token (kind : Kind)
  | input (text : String)
  deriving DecidableEq, Repr

def Found.text : Found → String
  | token kind => kind.name
  | input text => s!"illegal input '{text}'"

/-- Why a literal token has no value. -/
inductive BadLiteral where
  | int (text : String) (cause : IntError)
  | float (text : String) (cause : FloatError)
  | quoted (cause : LiteralError)
  deriving DecidableEq, Repr

def BadLiteral.message : BadLiteral → String
  | int text cause => text ++ ": " ++ cause.message
  | float text cause => text ++ ": " ++ cause.message
  | quoted cause => cause.message

/-- Arrangements of well-formed parts that no construct allows. -/
inductive Misplaced where
  | closingBrace
  | missingCondition
  | loopCondition
  | namedAfterNamedSpread
  | argumentAfterNamedSpread
  | positionalAfterSpread
  | missingIndex
  deriving DecidableEq, Repr

def Misplaced.message : Misplaced → String
  | closingBrace => "unexpected '\x7d'"
  | missingCondition => "missing condition in if statement"
  | loopCondition => "expected for loop condition"
  | namedAfterNamedSpread => "keyword argument after keyword spread"
  | argumentAfterNamedSpread => "argument after keyword spread"
  | positionalAfterSpread => "positional argument after spread or keyword argument"
  | missingIndex => "missing index expression"

inductive ParseError where
  | unexpected (expected : Expected) (found : Found) (span : Span)
  | badLiteral (cause : BadLiteral) (span : Span)
  | misplaced (cause : Misplaced) (span : Span)
  deriving DecidableEq, Repr

namespace ParseError

def span : ParseError → Span
  | unexpected _ _ span | badLiteral _ span | misplaced _ span => span

def message : ParseError → String
  | unexpected expected found _ => "expected " ++ expected.text ++ ", found " ++ found.text
  | badLiteral cause _ => "invalid literal: " ++ cause.message
  | misplaced cause _ => cause.message

end ParseError

end Skiff
