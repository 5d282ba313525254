import ModuleBundler.Declaration
import ModuleBundler.Import.Basic
import ModuleBundler.Path

/-!
A parsed module: what its text declares, and the name its factory gets in a bundle.
-/

namespace ModuleBundler

open ModuleBundler.Syntax

/-- A parsed module: its factory name, its path, its imports, its class, its functions before
the class, its other top-level statements, its export bindings and its default export. -/
structure Module where
  name : String
  path : String
  imports : List Import := []
  cls : Option ClassDecl := none
  functions : List FunctionDecl := []
  statements : List String := []
  exports : List ExportBinding := []
  defaultExport : Option String := none
  deriving DecidableEq, Repr

namespace Module

/-- The suffix of every factory name. -/
def factorySuffix : String := "JS_Fn"

/-- The factory name for a module path: the file stem with every character that is not a name
character replaced by `_`, a `_` in front when that is empty or starts with an ASCII digit,
and the suffix `JS_Fn`. -/
def factoryName (path : String) : String :=
  let stem := ((Path.ofString path).fileStem?.getD "").toList.map fun c =>
    if isNameChar c then c else '_'
  let stem := match stem with
    | c :: _ => if c.isDigit then '_' :: stem else stem
    | [] => ['_']
  String.ofList stem ++ factorySuffix

/-- Every function of the module ordered by header line: the functions before the class, then
the class's functions, with ties kept in that order. -/
def orderedFunctions (m : Module) : List FunctionDecl :=
  (m.functions ++ (m.cls.map ClassDecl.functions).getD []).mergeSort fun a b => a.line ≤ b.line

/-- The specifiers of the imports, each once, in order of first appearance. -/
def specifiers (m : Module) : List String :=
  (m.imports.map Import.source).foldl (fun acc s => if s ∈ acc then acc else acc ++ [s]) []

end Module

end ModuleBundler
