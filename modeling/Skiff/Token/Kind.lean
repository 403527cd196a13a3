/-!
# Kinds of tokens

Keywords and marks are fixed texts. The remaining kinds are classes of texts: literals,
identifiers, the end of the file, and input that is no token at all.
-/

namespace Skiff

/-- Reserved words. The last three are literals as well. -/
inductive Keyword where
  | func | if_ | else_ | for_ | in_ | break_ | continue_ | return_
  | export_ | import_ | error | immutable | true_ | false_ | undefined
  deriving DecidableEq, Repr

namespace Keyword

def text : Keyword → String
  | func => "func"
  | if_ => "if"
  | else_ => "else"
  | for_ => "for"
  | in_ => "in"
  | break_ => "break"
  | continue_ => "continue"
  | return_ => "return"
  | export_ => "export"
  | import_ => "import"
  | error => "error"
  | immutable => "immutable"
  | true_ => "true"
  | false_ => "false"
  | undefined => "undefined"

def all : List Keyword :=
  [func, if_, else_, for_, in_, break_, continue_, return_, export_, import_, error, immutable,
    true_, false_, undefined]

end Keyword

/-- Operators and punctuation. -/
inductive Mark where
  | add | sub | mul | quo | rem | and | or | xor | andNot | shl | shr
  | logicalAnd | logicalOr | inc | dec
  | equal | notEqual | less | lessEq | greater | greaterEq | not
  | assign | define | addAssign | subAssign | mulAssign | quoAssign | remAssign
  | andAssign | orAssign | xorAssign | andNotAssign | shlAssign | shrAssign
  | leftParen | rightParen | leftBracket | rightBracket | leftBrace | rightBrace
  | comma | semicolon | colon | period | ellipsis | question
  deriving DecidableEq, Repr

namespace Mark

def text : Mark → String
  | add => "+"
  | sub => "-"
  | mul => "*"
  | quo => "/"
  | rem => "%"
  | and => "&"
  | or => "|"
  | xor => "^"
  | andNot => "&^"
  | shl => "<<"
  | shr => ">>"
  | logicalAnd => "&&"
  | logicalOr => "||"
  | inc => "++"
  | dec => "--"
  | equal => "=="
  | notEqual => "!="
  | less => "<"
  | lessEq => "<="
  | greater => ">"
  | greaterEq => ">="
  | not => "!"
  | assign => "="
  | define => ":="
  | addAssign => "+="
  | subAssign => "-="
  | mulAssign => "*="
  | quoAssign => "/="
  | remAssign => "%="
  | andAssign => "&="
  | orAssign => "|="
  | xorAssign => "^="
  | andNotAssign => "&^="
  | shlAssign => "<<="
  | shrAssign => ">>="
  | leftParen => "("
  | rightParen => ")"
  | leftBracket => "["
  | rightBracket => "]"
  | leftBrace => "\x7b"
  | rightBrace => "\x7d"
  | comma => ","
  | semicolon => ";"
  | colon => ":"
  | period => "."
  | ellipsis => "..."
  | question => "?"

def all : List Mark :=
  [add, sub, mul, quo, rem, and, or, xor, andNot, shl, shr, logicalAnd, logicalOr, inc, dec,
    equal, notEqual, less, lessEq, greater, greaterEq, not, assign, define, addAssign,
    subAssign, mulAssign, quoAssign, remAssign, andAssign, orAssign, xorAssign, andNotAssign,
    shlAssign, shrAssign, leftParen, rightParen, leftBracket, rightBracket, leftBrace,
    rightBrace, comma, semicolon, colon, period, ellipsis, question]

/-- `=`, `:=` and the compound assignments. -/
def isAssignment : Mark → Bool
  | assign | define | addAssign | subAssign | mulAssign | quoAssign | remAssign | andAssign
  | orAssign | xorAssign | andNotAssign | shlAssign | shrAssign => true
  | _ => false

end Mark

/-- The kind of a token. -/
inductive Kind where
  | int | float | string | rawString | char | ident
  | keyword (word : Keyword)
  | mark (sign : Mark)
  | endOfFile
  | illegal
  deriving DecidableEq, Repr, Inhabited

namespace Kind

/-- The text of a fixed token, and a description of any other. -/
def name : Kind → String
  | int => "integer"
  | float => "float"
  | string => "string"
  | rawString => "raw string"
  | char => "character"
  | ident => "identifier"
  | keyword word => word.text
  | mark sign => sign.text
  | endOfFile => "end of file"
  | illegal => "illegal token"

def isKeyword : Kind → Bool
  | keyword _ => true
  | _ => false

def isLiteral : Kind → Bool
  | int | float | string | rawString | char => true
  | keyword .true_ | keyword .false_ | keyword .undefined => true
  | _ => false

def isAssignment : Kind → Bool
  | mark sign => sign.isAssignment
  | _ => false

end Kind

end Skiff
