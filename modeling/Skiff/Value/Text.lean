import Skiff.Text.Quoted
import Skiff.Text.Utf8
import Skiff.Value.Basic

/-!
# Texts of values

How values are shown, and the plainer text that conversions to strings and concatenation use.
-/

namespace Skiff

namespace Heap

/-- How a value is shown. Nested containers are followed at most `fuel` levels deep, and between
them at most `cells` cells. -/
def showFrom (heap : Heap) (fuel cells : Nat) (value : Value) : String :=
  match fuel, cells, value with
  | _, _, .undefined => "<undefined>"
  | _, _, .bool b => toString b
  | _, _, .int n => toString n.toInt
  | _, _, .float x => x.text
  | _, _, .char c => String.singleton c
  | _, _, .string s => quoteString s
  | _, _, .bytes b =>
    "[" ++ String.intercalate ", " (b.data.toList.map fun byte => toString byte.toNat) ++ "]"
  | fuel, cells, .error inner => "error: " ++ heap.showFrom fuel cells inner
  | _, _, .time t => t.text
  | _, _, .function _ => "<compiled-function>"
  | _, _, .builtin b => "<builtin-function:" ++ b.name ++ ">"
  | _, _, .host _ name => "<host-function:" ++ name ++ ">"
  | _, _, .method ref => "<method:" ++ (heap.method ref).name.text ++ ">"
  | _, _, .iterator _ => "<iterator>"
  | _, _, .routine _ => "<routine>"
  | _, _, .channel _ => "<channel>"
  | fuel + 1, _, .array ref | fuel + 1, _, .immutableArray ref =>
    "[" ++ String.intercalate ", " ((heap.array ref).toList.map fun item =>
      heap.showFrom fuel heap.reach item) ++ "]"
  | fuel + 1, _, .map ref | fuel + 1, _, .immutableMap ref =>
    "\x7b" ++ String.intercalate ", " ((heap.map ref).entries.toList.map fun (key, item) =>
      key ++ ": " ++ heap.showFrom fuel heap.reach item) ++ "\x7d"
  | fuel, cells + 1, .cell ref => heap.showFrom fuel cells (heap.cell ref)
  | _, _, _ => ""
termination_by (fuel, cells, value)

/-- How a value is shown. -/
def display (heap : Heap) (value : Value) : String := heap.showFrom heap.depth heap.reach value

/-- How a value is shown together with its type. -/
def inspect (heap : Heap) (value : Value) : String :=
  value.type.name ++ "(" ++ heap.display value ++ ")"

/-- The text of a value: strings, characters and bytes without quotes or brackets, everything
else as it is shown. -/
def text (heap : Heap) : Value → String
  | .string s => s
  | .char c => String.singleton c
  | .bytes b => decodeUtf8 b
  | value => heap.display value

end Heap

end Skiff
