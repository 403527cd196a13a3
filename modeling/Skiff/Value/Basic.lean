import Skiff.Builtin
import Skiff.Code.SourceMap
import Skiff.Number.Decimal
import Skiff.Number.Instant
import Skiff.Value.Dict

/-!
# Values and the heap

A value is a scalar or a reference. Arrays, maps, cells, functions, iterators and methods live
in a heap, which only grows, and values refer to them by number; two references are the same
object if their numbers are equal. An immutable array or map is a view of the same storage that
does not allow changes.
-/

namespace Skiff

/-- What a value is, as scripts can ask for it. -/
inductive ValueType where
  | undefined | bool | int | float | char | string | bytes | array | immutableArray | map
  | immutableMap | error | time | function | builtin | host | method | iterator | routine
  | channel | cell
  deriving DecidableEq, Repr

def ValueType.name : ValueType → String
  | undefined => "undefined"
  | bool => "bool"
  | int => "int"
  | float => "float"
  | char => "char"
  | string => "string"
  | bytes => "bytes"
  | array => "array"
  | immutableArray => "immutable-array"
  | map => "map"
  | immutableMap => "immutable-map"
  | error => "error"
  | time => "time"
  | function => "compiled-function"
  | builtin => "builtin-function"
  | host => "host-function"
  | method => "method"
  | iterator => "iterator"
  | routine => "routine"
  | channel => "channel"
  | cell => "free-variable"

inductive Value where
  | undefined
  | bool (b : Bool)
  | int (n : Int64)
  | float (x : Double)
  | char (c : Char)
  | string (s : String)
  | bytes (b : ByteArray)
  | array (ref : Nat)
  | immutableArray (ref : Nat)
  | map (ref : Nat)
  | immutableMap (ref : Nat)
  /-- An error that scripts can inspect, around one value. -/
  | error (inner : Value)
  | time (t : Instant)
  | function (ref : Nat)
  | builtin (b : Builtin)
  | host (ref : Nat) (name : String)
  | method (ref : Nat)
  | iterator (ref : Nat)
  | routine (ref : Nat)
  | channel (ref : Nat)
  /-- A captured variable; scripts never see it. -/
  | cell (ref : Nat)
  deriving DecidableEq, Inhabited

namespace Value

def type : Value → ValueType
  | undefined => .undefined
  | bool _ => .bool
  | int _ => .int
  | float _ => .float
  | char _ => .char
  | string _ => .string
  | bytes _ => .bytes
  | array _ => .array
  | immutableArray _ => .immutableArray
  | map _ => .map
  | immutableMap _ => .immutableMap
  | error _ => .error
  | time _ => .time
  | function _ => .function
  | builtin _ => .builtin
  | host .. => .host
  | method _ => .method
  | iterator _ => .iterator
  | routine _ => .routine
  | channel _ => .channel
  | cell _ => .cell

def isCallable : Value → Bool
  | function _ | builtin _ | host .. | method _ => true
  | _ => false

def isIterable : Value → Bool
  | array _ | immutableArray _ | map _ | immutableMap _ | string _ | bytes _ => true
  | _ => false

/-- A read-only view of the same storage; values other than arrays and maps are their own. -/
def immutable : Value → Value
  | array ref => immutableArray ref
  | map ref => immutableMap ref
  | other => other

end Value

/-- The longest strings and byte sequences that values may hold, in bytes. -/
def maxTextSize : Nat := 2147483647

/-- A compiled function body with the cells of the variables it captured. -/
structure Function where
  code : ByteArray
  locals : Nat := 0
  params : Nat := 0
  /-- The last parameter collects surplus arguments in an array. -/
  variadic : Bool := false
  map : SourceMap := {}
  free : Array Nat := #[]
  deriving Inhabited

/-- What an iterator runs over. Arrays are watched as they change; of maps the keys are fixed
when the iterator is made. -/
inductive IterSource where
  | array (ref : Nat)
  | bytes (b : ByteArray)
  | map (ref : Nat) (keys : Array String)
  | chars (cs : Array Char)
  deriving Inhabited

structure Iterator where
  source : IterSource
  /-- The place of the next element. -/
  pos : Nat := 0
  /-- The current key and value. -/
  current : Option (Value × Value) := none
  deriving Inhabited

/-- The methods of routines and channels. -/
inductive MethodName where
  | wait | result | abort | send | recv | close
  deriving DecidableEq, Repr, Inhabited

def MethodName.text : MethodName → String
  | wait => "wait"
  | result => "result"
  | abort => "abort"
  | send => "send"
  | recv => "recv"
  | close => "close"

def MethodName.ofRoutine? : String → Option MethodName
  | "wait" => some wait
  | "result" => some result
  | "abort" => some abort
  | _ => none

def MethodName.ofChannel? : String → Option MethodName
  | "send" => some send
  | "recv" => some recv
  | "close" => some close
  | _ => none

/-- A method and the number of the routine or channel it belongs to. -/
structure Method where
  name : MethodName
  target : Nat
  deriving DecidableEq, Inhabited

structure Heap where
  arrays : Array (Array Value) := #[]
  maps : Array (Dict Value) := #[]
  cells : Array Value := #[]
  functions : Array Function := #[]
  iterators : Array Iterator := #[]
  methods : Array Method := #[]
  deriving Inhabited

namespace Heap

def array (heap : Heap) (ref : Nat) : Array Value := heap.arrays.getD ref #[]

def map (heap : Heap) (ref : Nat) : Dict Value := heap.maps.getD ref .empty

def cell (heap : Heap) (ref : Nat) : Value := heap.cells.getD ref .undefined

def function (heap : Heap) (ref : Nat) : Function := heap.functions.getD ref default

def iterator (heap : Heap) (ref : Nat) : Iterator := heap.iterators.getD ref default

def method (heap : Heap) (ref : Nat) : Method := heap.methods.getD ref default

/-- A new array. -/
def newArray (heap : Heap) (items : Array Value) : Value × Heap :=
  (.array heap.arrays.size, { heap with arrays := heap.arrays.push items })

/-- A new map. -/
def newMap (heap : Heap) (entries : Dict Value) : Value × Heap :=
  (.map heap.maps.size, { heap with maps := heap.maps.push entries })

/-- A new cell that holds a value, by its number. -/
def newCell (heap : Heap) (value : Value) : Nat × Heap :=
  (heap.cells.size, { heap with cells := heap.cells.push value })

def newFunction (heap : Heap) (function : Function) : Value × Heap :=
  (.function heap.functions.size, { heap with functions := heap.functions.push function })

def newIterator (heap : Heap) (iterator : Iterator) : Value × Heap :=
  (.iterator heap.iterators.size, { heap with iterators := heap.iterators.push iterator })

def newMethod (heap : Heap) (method : Method) : Value × Heap :=
  (.method heap.methods.size, { heap with methods := heap.methods.push method })

def modifyArray (heap : Heap) (ref : Nat) (change : Array Value → Array Value) : Heap :=
  { heap with arrays := heap.arrays.modify ref change }

def modifyMap (heap : Heap) (ref : Nat) (change : Dict Value → Dict Value) : Heap :=
  { heap with maps := heap.maps.modify ref change }

def setCell (heap : Heap) (ref : Nat) (value : Value) : Heap :=
  { heap with cells := heap.cells.setIfInBounds ref value }

def setIterator (heap : Heap) (ref : Nat) (iterator : Iterator) : Heap :=
  { heap with iterators := heap.iterators.setIfInBounds ref iterator }

/-- A bound for how deep containers can lie in one another without one being met twice. -/
def depth (heap : Heap) : Nat := heap.arrays.size + heap.maps.size + 1

/-- A bound for how many cells can be followed without one being met twice. -/
def reach (heap : Heap) : Nat := heap.cells.size + 1

/-- The value that a captured variable holds; other values are their own. -/
def deref (heap : Heap) : Value → Value
  | .cell ref => heap.cell ref
  | value => value

/-- Follows cells until another value is reached. -/
def derefAll (heap : Heap) : (fuel : Nat) → Value → Value
  | 0, value => value
  | fuel + 1, .cell ref => derefAll heap fuel (heap.cell ref)
  | _ + 1, value => value

/-- The value behind any number of cells. -/
def resolve (heap : Heap) (value : Value) : Value :=
  match value with
  | .cell _ => heap.derefAll heap.reach value
  | _ => value

/-- False, zero, NaN, the zero character, what is empty, undefined, errors and the epoch count as
false. -/
def isFalsy (heap : Heap) (value : Value) : Bool :=
  match heap.resolve value with
  | .undefined | .error _ => true
  | .bool b => !b
  | .int n => n == 0
  | .float x => x.isNaN
  | .char c => c == '\x00'
  | .string s => s.isEmpty
  | .bytes b => b.size == 0
  | .array ref | .immutableArray ref => (heap.array ref).isEmpty
  | .map ref | .immutableMap ref => (heap.map ref).size == 0
  | .time t => t == .epoch
  | _ => false

end Heap

end Skiff
