import ModuleBundler.Syntax.Identifier

/-!
Declarations found in a module: functions, the class, and export bindings.

A function keeps its parameter list as written, from `(` to the matching `)`, and its body as
the lines between its braces. A class keeps its constructor, its methods, the functions that
follow it in the module, and its fields as written.
-/

namespace ModuleBundler

open ModuleBundler.Syntax

/-- A function or method: name, parameter list as written, whether it is exported and async,
the line of its header, and the lines of its body. -/
structure FunctionDecl where
  name : String
  params : String
  exported : Bool
  isAsync : Bool
  line : Nat
  body : List String
  deriving DecidableEq, Repr

namespace FunctionDecl

/-- The names a parameter list binds, read loosely: every run of name characters that does
not start with an ASCII digit. -/
def paramNames (f : FunctionDecl) : List String :=
  ((f.params.toList.splitOnP fun c => !isNameChar c).filter fun w =>
      match w with
      | c :: _ => !c.isDigit
      | [] => false).map String.ofList

end FunctionDecl

/-- The one class of a module: name, whether it is exported, the line of its header, its
constructor and methods, the functions declared after it, and its fields as written. -/
structure ClassDecl where
  name : String
  exported : Bool
  line : Nat
  ctor : Option FunctionDecl := none
  methods : List FunctionDecl := []
  trailing : List FunctionDecl := []
  fields : List String := []
  deriving DecidableEq, Repr

namespace ClassDecl

/-- Constructor, methods and trailing functions, in that order. -/
def functions (c : ClassDecl) : List FunctionDecl :=
  c.ctor.toList ++ c.methods ++ c.trailing

/-- Applies `f` to the constructor, the methods and the trailing functions. -/
def mapFunctions (f : FunctionDecl → FunctionDecl) (c : ClassDecl) : ClassDecl :=
  { c with ctor := c.ctor.map f, methods := c.methods.map f, trailing := c.trailing.map f }

end ClassDecl

/-- A name under which a module exports one of its own names. -/
structure ExportBinding where
  exported : String
  localName : String
  deriving DecidableEq, Repr

end ModuleBundler
