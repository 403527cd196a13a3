import Skiff.Scope

/-!
# Names of the builtin functions

The functions that every script can use. Instructions name them by their number.
-/

namespace Skiff

inductive Builtin where
  | len | copy | append | delete | splice | typeName | format | range
  | string | int | bool | float | char | bytes | time
  | isInt | isFloat | isString | isBool | isChar | isBytes | isArray | isImmutableArray
  | isMap | isImmutableMap | isIterable | isTime | isError | isUndefined | isFunction
  | isCallable | spawn | makeChannel
  deriving DecidableEq, Repr

namespace Builtin

def name : Builtin → String
  | len => "len"
  | copy => "copy"
  | append => "append"
  | delete => "delete"
  | splice => "splice"
  | typeName => "type_name"
  | format => "format"
  | range => "range"
  | string => "string"
  | int => "int"
  | bool => "bool"
  | float => "float"
  | char => "char"
  | bytes => "bytes"
  | time => "time"
  | isInt => "is_int"
  | isFloat => "is_float"
  | isString => "is_string"
  | isBool => "is_bool"
  | isChar => "is_char"
  | isBytes => "is_bytes"
  | isArray => "is_array"
  | isImmutableArray => "is_immutable_array"
  | isMap => "is_map"
  | isImmutableMap => "is_immutable_map"
  | isIterable => "is_iterable"
  | isTime => "is_time"
  | isError => "is_error"
  | isUndefined => "is_undefined"
  | isFunction => "is_function"
  | isCallable => "is_callable"
  | spawn => "spawn"
  | makeChannel => "make_channel"

/-- All builtins by number. -/
def all : List Builtin :=
  [len, copy, append, delete, splice, typeName, format, range, string, int, bool, float, char,
    bytes, time, isInt, isFloat, isString, isBool, isChar, isBytes, isArray, isImmutableArray,
    isMap, isImmutableMap, isIterable, isTime, isError, isUndefined, isFunction, isCallable,
    spawn, makeChannel]

def ofNumber? (number : Nat) : Option Builtin := all[number]?

def ofName? (name : String) : Option Builtin := all.find? fun builtin => builtin.name == name

end Builtin

/-- A table whose outermost scope holds every builtin. -/
def SymbolTable.withBuiltins : SymbolTable :=
  (Builtin.all.zipIdx).foldl (fun table (builtin, number) =>
    (table.defineBuiltin number builtin.name).1) {}

end Skiff
