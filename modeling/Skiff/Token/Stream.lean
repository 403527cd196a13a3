import Skiff.Source.Span
import Skiff.Token.Rules

/-!
# Token streams

`Token.scan` cuts a text into tokens. Blank space and comments are dropped, but a token
remembers whether a line feed stood in what was dropped before it, because a line feed may end
a statement. A `Stream` hands the tokens out one by one with one token of lookahead; after the
last token it hands out the end of the file for ever.
-/

namespace Skiff

/-- A token with its place, its text, and whether a line feed stands between it and the token
before it. -/
structure Token where
  kind : Kind
  span : Span
  text : String
  newlineBefore : Bool := false
  deriving DecidableEq, Repr, Inhabited

/-- The number of bytes of a list of characters. -/
def byteLength (chars : List Char) : Nat := chars.foldl (fun n c => n + c.utf8Size) 0

/-- Cuts `text`, which starts at byte `offset`, into tokens, which are added to `done`. -/
def Token.scanFrom (file : UInt16) (text : List Char) (offset : Nat) (newline : Bool)
    (done : Array Token) : Array Token :=
  match text with
  | [] =>
    done.push
      { kind := .endOfFile, span := ⟨offset, offset, file⟩, text := "", newlineBefore := newline }
  | first :: others =>
    let scan := Scan.longest Rules.all (first :: others)
    let (lexeme, length) := match scan.found with
      | some (lexeme, length) => (lexeme, length)
      | none => (Lexeme.token .illegal, scan.reached)
    -- Every match has a first character, so the length is counted after it.
    let chars := first :: others.take (length - 1)
    let rest := others.drop (length - 1)
    let stop := offset + byteLength chars
    match lexeme with
    | .skipped => scanFrom file rest stop (newline || chars.contains '\n') done
    | .token kind =>
      scanFrom file rest stop false
        (done.push
          { kind, span := ⟨offset, stop, file⟩, text := String.ofList chars,
            newlineBefore := newline })
termination_by text.length
decreasing_by all_goals (simp only [List.length_drop, List.length_cons]; omega)

/-- All tokens of a text, the end of the file included. -/
def Token.scan (text : String) (file : UInt16) : List Token :=
  (Token.scanFrom file text.toList 0 false #[]).toList

/-- The tokens still to be handed out: the next one and those behind it. -/
structure Stream where
  next : Token
  rest : List Token
  deriving Inhabited

namespace Stream

/-- The stream of the tokens of a text. -/
def ofText (text : String) (file : UInt16) : Stream :=
  match Token.scan text file with
  | next :: rest => { next, rest }
  | [] => { next := { kind := .endOfFile, span := ⟨0, 0, file⟩, text := "" }, rest := [] }

/-- Hands out the next token. The last token, the end of the file, stays in the stream, and no
line feed stands before its repetitions. -/
def advance (stream : Stream) : Token × Stream :=
  match stream.rest with
  | next :: rest => (stream.next, { next, rest })
  | [] => (stream.next, { next := { stream.next with newlineBefore := false }, rest := [] })

/-- The token after the next one. -/
def second (stream : Stream) : Token :=
  match stream.rest with
  | token :: _ => token
  | [] => { stream.next with newlineBefore := false }

/-- All remaining tokens up to and including the end of the file. -/
def drain (stream : Stream) : List Token × Stream :=
  let tokens := stream.next :: stream.rest
  (tokens,
    { next := { tokens.getLast (by simp [tokens]) with newlineBefore := false }, rest := [] })

end Stream

end Skiff
