import Skiff.Token.Kind
import Skiff.Token.Pattern

/-!
# The rules of tokens

Each rule pairs a pattern with what a match of it is: a token of some kind, or blank space and
comments, which are skipped. The longest match wins, and among rules of equal length the one
that is listed first, so that keywords come before identifiers.
-/

namespace Skiff

/-- What the match of a rule becomes. -/
inductive Lexeme where
  | skipped
  | token (kind : Kind)
  deriving DecidableEq, Repr

namespace Rules

open Pattern

private def digit : CharSet := .within [('0', '9')]
private def digits : Pattern := .seq (.one digit) (.star (.one (.within [('0', '9'), ('_', '_')])))
private def hexDigit : CharSet := .within [('0', '9'), ('a', 'f'), ('A', 'F')]
private def hexTail : CharSet := .within [('0', '9'), ('a', 'f'), ('A', 'F'), ('_', '_')]

private def oneOf (chars : List Char) : Pattern := .one (.anyOf chars)
private def anyBut (chars : List Char) : Pattern := .one (.noneOf chars)

/-- Spaces, tabs, carriage returns, line feeds and form feeds. -/
def space : Pattern := plus (oneOf [' ', '\t', '\r', '\n', '\x0c'])

/-- From two slashes to the end of the line. -/
def lineComment : Pattern := sequence [word ['/', '/'], .star (anyBut ['\n'])]

/-- From a slash and a star to the next star and slash. -/
def blockComment : Pattern :=
  sequence
    [word ['/', '*'],
      .star (.alt (anyBut ['*']) (.seq (plus (oneOf ['*'])) (anyBut ['*', '/']))),
      plus (oneOf ['*']), oneOf ['/']]

def hexInt : Pattern :=
  sequence [oneOf ['0'], oneOf ['x', 'X'], .one hexDigit, .star (.one hexTail)]

def binaryInt : Pattern :=
  sequence [oneOf ['0'], oneOf ['b', 'B'], oneOf ['0', '1'], .star (oneOf ['0', '1', '_'])]

def octalInt : Pattern :=
  sequence
    [oneOf ['0'], oneOf ['o', 'O'], .one (.within [('0', '7')]),
      .star (.one (.within [('0', '7'), ('_', '_')]))]

def decimalInt : Pattern := digits

private def exponent : Pattern :=
  sequence [oneOf ['e', 'E'], optional (oneOf ['+', '-']), plus (.one digit)]

/-- Digits, a point, digits and perhaps an exponent. -/
def pointFloat : Pattern := sequence [digits, oneOf ['.'], digits, optional exponent]

/-- Digits and an exponent. -/
def exponentFloat : Pattern := .seq digits exponent

/-- Double quotes on one line; a backslash takes the next character with it. -/
def quoted : Pattern :=
  sequence
    [oneOf ['"'], .star (.alt (anyBut ['"', '\\', '\n']) (.seq (oneOf ['\\']) (anyBut ['\n']))),
      oneOf ['"']]

/-- Back quotes around anything but a back quote. -/
def rawQuoted : Pattern := sequence [oneOf ['\x60'], .star (anyBut ['\x60']), oneOf ['\x60']]

/-- Single quotes around one character, or a backslash with at least one character. -/
def quotedChar : Pattern :=
  sequence
    [oneOf ['\''],
      .alt (anyBut ['\'', '\\'])
        (.alt (.seq (oneOf ['\\']) (plus (anyBut ['\'']))) (word ['\\', '\''])),
      oneOf ['\'']]

def identifier : Pattern :=
  .seq (.one (.within [('a', 'z'), ('A', 'Z'), ('_', '_')]))
    (.star (.one (.within [('a', 'z'), ('A', 'Z'), ('0', '9'), ('_', '_')])))

private def keywordRule (keyword : Keyword) : Lexeme × Pattern :=
  (.token (.keyword keyword), word keyword.text.toList)

private def markRule (mark : Mark) : Lexeme × Pattern :=
  (.token (.mark mark), word mark.text.toList)

/-- All rules, in the order that decides between matches of equal length. -/
def all : List (Lexeme × Pattern) :=
  [(.skipped, space), (.skipped, lineComment), (.skipped, blockComment)]
    ++ Keyword.all.map keywordRule
    ++ Mark.all.map markRule
    ++ [(.token .int, hexInt), (.token .int, binaryInt), (.token .int, octalInt),
        (.token .int, decimalInt), (.token .float, pointFloat), (.token .float, exponentFloat),
        (.token .string, quoted), (.token .rawString, rawQuoted), (.token .char, quotedChar),
        (.token .ident, identifier)]

end Rules

end Skiff
