import Skiff.Source.File
import Skiff.Source.FileTree

/-!
# Compile errors

Why a syntax tree has no code, and where.
-/

namespace Skiff

inductive CompileFault where
  | unresolved (name : String)
  | redeclared (name : String)
  | assignToBuiltin (name : String)
  | defineWithSelector
  | assignTarget
  | breakOutsideLoop
  | continueOutsideLoop
  | returnOutsideFunction
  | exportInsideFunction
  | exportOutsideModule
  | emptyModuleName
  | moduleNotFound (name : String)
  | moduleFile (path : String) (error : ReadError)
  | cyclicImport (path : String)
  | moduleParse (path message : String)
  | stringLimit
  | tooManyConstants
  | tooManyGlobals
  | tooManyLocals
  | tooManyFreeVariables
  | tooManyArguments
  | tooManyElements
  deriving DecidableEq, Repr

def CompileFault.message : CompileFault → String
  | unresolved name => "unresolved reference '" ++ name ++ "'"
  | redeclared name => "'" ++ name ++ "' redeclared in this block"
  | assignToBuiltin name => "cannot assign to builtin '" ++ name ++ "'"
  | defineWithSelector => "operator ':=' not allowed with selector"
  | assignTarget => "invalid assignment target"
  | breakOutsideLoop => "break not allowed outside loop"
  | continueOutsideLoop => "continue not allowed outside loop"
  | returnOutsideFunction => "return not allowed outside function"
  | exportInsideFunction => "export not allowed inside function"
  | exportOutsideModule => "export not allowed outside module"
  | emptyModuleName => "empty module name"
  | moduleNotFound name => "module '" ++ name ++ "' not found"
  | moduleFile _ error => "module file read error: " ++ error.message
  | cyclicImport path => "cyclic module import: " ++ path
  | moduleParse path message => "in module '" ++ path ++ "': " ++ message
  | stringLimit => "exceeding string size limit"
  | tooManyConstants => "too many constants"
  | tooManyGlobals => "too many global variables"
  | tooManyLocals => "too many local variables"
  | tooManyFreeVariables => "too many free variables"
  | tooManyArguments => "too many arguments"
  | tooManyElements => "too many elements"

structure CompileError where
  fault : CompileFault
  span : Span
  deriving DecidableEq, Repr

/-- The message and the place it is about. -/
def CompileError.render (error : CompileError) (files : FileSet) : String :=
  "Compile Error: " ++ error.fault.message ++ "\n\tat " ++ (files.position error.span).render

end Skiff
