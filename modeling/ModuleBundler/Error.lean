import ModuleBundler.Workspace

/-!
Why parsing, scanning or bundling fails, and the text each failure is reported with.

A failure is a value of `BundleError`; `BundleError.message` gives its text and
`BundleError.code` its class.
-/

namespace ModuleBundler

/-- What opens the body that a `{` was expected for. -/
inductive BodyOwner where
  | function (name : String)
  | classDecl (name : String)
  deriving DecidableEq, Repr

namespace BodyOwner

/-- How the body is named in a message. -/
def describe : BodyOwner → String
  | function name => "the body of '" ++ name ++ "'"
  | classDecl name => "the body of class '" ++ name ++ "'"

end BodyOwner

/-- Why a module text is not accepted. -/
inductive ParseProblem where
  | unterminatedBlock
  | missingBrace (owner : BodyOwner)
  | unterminatedParameters (name : String)
  | unterminatedComment
  | unrecognizedImport (statement : String)
  | generator
  | secondClass (first : String) (line : Nat)
  | inheritance (cls : String)
  | accessor (cls : String)
  | privateMember (cls : String)
  | secondConstructor (cls : String)
  | unterminatedMember
  | strayCloseInClass
  | strayCloseAtTop
  | unsupportedExport (statement : String)
  | unsupportedExportSpecifier (specifier : String)
  deriving DecidableEq, Repr

namespace ParseProblem

/-- The sentence that describes the problem. -/
def message : ParseProblem → String
  | unterminatedBlock => "unterminated block: no matching '\x7d' before end of file"
  | missingBrace owner => "expected '\x7b' to open " ++ owner.describe
  | unterminatedParameters name => "unterminated parameter list for '" ++ name ++ "'"
  | unterminatedComment => "unterminated block comment"
  | unrecognizedImport statement => "unrecognized import syntax: '" ++ statement ++ "'"
  | generator => "generator functions are not supported"
  | secondClass first line =>
    "only one class per module is supported ('" ++ first ++ "' already declared at line " ++
      Nat.repr line ++ ")"
  | inheritance cls => "class '" ++ cls ++ "': inheritance is not supported"
  | accessor cls => "class '" ++ cls ++ "': accessors and generator methods are not supported"
  | privateMember cls => "class '" ++ cls ++ "': private '#' members are not supported"
  | secondConstructor cls => "class '" ++ cls ++ "' declares more than one constructor"
  | unterminatedMember => "unterminated class member initializer"
  | strayCloseInClass => "unbalanced '\x7d' in class body"
  | strayCloseAtTop => "unbalanced '\x7d' at top level"
  | unsupportedExport statement => "unsupported export form: '" ++ statement ++ "'"
  | unsupportedExportSpecifier specifier =>
    "unsupported export specifier: '" ++ specifier ++ "'"

end ParseProblem

/-- A failure of parsing, scanning, bundling or serving. -/
inductive BundleError where
  /-- The module at `file` is not accepted at `line`. -/
  | parse (file : String) (line : Nat) (problem : ParseProblem)
  /-- `specifier`, imported by the module `importer`, names no file; `lookedFor` is the path
  tried first. -/
  | unresolved (specifier importer : String) (lookedFor : Path)
  /-- The file at `path` cannot be read. -/
  | unreadable (path : String) (failure : IoFailure)
  /-- A requested path climbs out of the base directory. -/
  | outsideBase (path : Path)
  /-- One name is registered for two modules. -/
  | ambiguous (specifier first second : String)
  /-- The scan went deeper than its depth bound, which no chain of distinct keys of paths that
  can be read reaches. -/
  | tooDeep (path : Path)

namespace BundleError

/-- The class of the failure. -/
def code : BundleError → String
  | parse .. => "PARSE_ERROR"
  | unresolved .. => "RESOLUTION_ERROR"
  | unreadable .. | outsideBase .. | tooDeep .. => "IO_ERROR"
  | ambiguous .. => "AMBIGUOUS_SPECIFIER"

/-- The text of the failure. -/
def message : BundleError → String
  | parse file line problem =>
    "Parse error in '" ++ file ++ "' at line " ++ Nat.repr line ++ ": " ++ problem.message
  | unresolved specifier importer lookedFor =>
    "Cannot resolve '" ++ specifier ++ "' imported by '" ++ importer ++ "' (looked for '" ++
      lookedFor.toString ++ "')"
  | unreadable path failure => "Failed to read '" ++ path ++ "': " ++ failure.message
  | outsideBase path =>
    "Failed to read '" ++ path.toString ++ "': request path escapes the base directory"
  | ambiguous specifier first second =>
    "Specifier '" ++ specifier ++ "' refers to both '" ++ first ++ "' and '" ++ second ++ "'"
  | tooDeep path => "Failed to read '" ++ path.toString ++ "': import chain deeper than the file tree"

end BundleError

end ModuleBundler
