import Skiff.Token.Literal
import Skiff.Value.Basic

/-!
# Values of literals
-/

namespace Skiff

/-- The value that a literal denotes. -/
def Value.ofLiteral : Literal → Value
  | .int n => .int n
  | .float x => .float x
  | .string text => .string text
  | .char c => .char c
  | .bool b => .bool b
  | .undefined => .undefined

end Skiff
