import ModuleBundler.Module.Parser

/-!
Call sites of imported names, and their redirection to registry lookups.

A call site of a local name is an occurrence that follows neither a name character nor `.`
and is followed by `(`; for a name that stands for a whole module, also one followed by
`.member(`. A call `f(` of a name imported from `spec` becomes `mr.get('spec').member(`, and a
call `ns.member(` through a module object becomes `mr.get('spec').member(`. In the
shadow-aware mode a function's own parameters and declarations hide imported names inside it.

`Module.parse` reads a module and redirects its call sites.
-/

namespace ModuleBundler

open ModuleBundler.Text ModuleBundler.Syntax

/-- Whether names a function declares itself hide imported names inside it. -/
inductive Scoping where
  | textual
  | shadowAware
  deriving DecidableEq, Repr

/-- The name of the registry object in a bundle. -/
def registryName : String := "mr"

/-- A text in single quotes, with `\` and `'` escaped by `\`. -/
def singleQuoted (s : String) : String :=
  "'" ++ String.ofList (s.toList.flatMap fun c =>
    if c = '\\' then ['\\', '\\'] else if c = '\'' then ['\\', '\''] else [c]) ++ "'"

/-- The expression that fetches the module a specifier names from the registry. -/
def registryLookup (source : String) : String :=
  registryName ++ ".get(" ++ singleQuoted source ++ ")"

/-- A local name brought in by an import: its specifier, the member it stands for, and whether
it stands for the whole module. -/
structure Binding where
  localName : String
  source : String
  member : String
  wholeModule : Bool
  deriving DecidableEq, Repr

namespace Binding

/-- The bindings of a module's imports, import by import, names in sorted order. -/
def ofImports (imports : List Import) : List Binding :=
  imports.flatMap fun imp =>
    imp.names.map fun n => ⟨n, imp.source, imp.memberFor n, imp.kind = .namespaceObject⟩

/-- What replaces the name at an occurrence followed by `after`, if it is a call site. -/
def replacement (b : Binding) (after : List Char) : Option (List Char) :=
  match after with
  | '(' :: _ => some (registryLookup b.source ++ "." ++ b.member).toList
  | '.' :: rest =>
    if b.wholeModule then
      let n := nameLength rest
      if n > 0 && (rest.drop n).head? = some '(' then some (registryLookup b.source).toList
      else none
    else none
  | _ => none

/-- Whether a character before an occurrence keeps it from being a call site. -/
def joinsName (prev : Option Char) : Bool :=
  match prev with
  | some p => isNameChar p || p = '.'
  | none => false

/-- Redirects the call sites of the binding in a text; `prev` is the character before it. Each
occurrence of the name is looked at once, from left to right, and the search goes on after it. -/
def redirectFrom (b : Binding) (name : List Char) (prev : Option Char) : List Char → List Char
  | [] => []
  | c :: rest =>
    match name with
    | [] => c :: rest
    | n :: ns =>
      if (n :: ns).isPrefixOf (c :: rest) then
        let after := (c :: rest).drop (ns.length + 1)
        let kept := (n :: ns).getLast?
        match (if joinsName prev then none else b.replacement after) with
        | some r => r ++ redirectFrom b (n :: ns) kept after
        | none => (n :: ns) ++ redirectFrom b (n :: ns) kept after
      else c :: redirectFrom b name (some c) rest
termination_by cs => cs.length
decreasing_by
  all_goals simp only [List.length_drop, List.length_cons]
  all_goals omega

/-- Redirects the call sites of one binding in a line. -/
def redirect (b : Binding) (line : List Char) : List Char :=
  b.redirectFrom b.localName.toList none line

end Binding

/-- Redirects a line for each binding in turn, leaving out those whose name is in `hidden`. -/
def redirectLine (bindings : List Binding) (hidden : List String) (line : List Char) : List Char :=
  bindings.foldl (fun acc b => if b.localName ∈ hidden then acc else b.redirect acc) line

/-- A declaration keyword (`let`, `const`, `var` or `function`) at the start of a text,
blanks, and a name: the name and the text after it. -/
def declarationAt (cs : List Char) : Option (List Char × List Char) :=
  match ["let", "const", "var", "function"].findSome? fun kw => afterKeyword kw.toList cs with
  | some r =>
    let n := identLength r
    if n = 0 then none else some (r.take n, r.drop n)
  | none => none

theorem length_declarationAt {cs name after : List Char}
    (h : declarationAt cs = some (name, after)) : after.length < cs.length := by
  unfold declarationAt at h
  split at h
  · rename_i r hr
    obtain ⟨kw, -, hkw⟩ := List.exists_of_findSome?_eq_some hr
    have := length_afterKeyword hkw
    dsimp only at h
    split at h
    · simp at h
    · simp only [Option.some.injEq, Prod.mk.injEq] at h
      obtain ⟨-, rfl⟩ := h
      simp only [List.length_drop]
      omega
  · simp at h

/-- The names declared by `let`, `const`, `var` or `function` in a text, in order; `prev` is the
character before it. A keyword counts only at the start of a word. -/
def declaredNames (prev : Option Char) : List Char → List String
  | [] => []
  | c :: rest =>
    let atWord := !(prev.map isWordChar).getD false
    match _h : (if atWord then declarationAt (c :: rest) else none) with
    | some (name, after) =>
      String.ofList name :: declaredNames name.getLast? after
    | none => declaredNames (some c) rest
termination_by cs => cs.length
decreasing_by
  · split at _h
    · exact length_declarationAt _h
    · simp at _h
  · simp

namespace FunctionDecl

/-- The names a function binds itself: its parameters and what its body declares. -/
def ownNames (f : FunctionDecl) : List String :=
  f.paramNames ++ f.body.flatMap fun line => declaredNames none line.toList

/-- Redirects the call sites in the body of a function. -/
def redirectCalls (bindings : List Binding) (mode : Scoping) (f : FunctionDecl) :
    FunctionDecl :=
  let hidden := match mode with
    | .textual => []
    | .shadowAware => f.ownNames
  { f with body := f.body.map fun line => String.ofList (redirectLine bindings hidden line.toList) }

end FunctionDecl

namespace Module

/-- Redirects the call sites of a module's imports in its function bodies and statements;
statements are redirected in either mode. -/
def redirectCalls (mode : Scoping) (m : Module) : Module :=
  let bindings := Binding.ofImports m.imports
  { m with
    functions := m.functions.map (FunctionDecl.redirectCalls bindings mode)
    cls := m.cls.map (ClassDecl.mapFunctions (FunctionDecl.redirectCalls bindings mode))
    statements := m.statements.map fun s => String.ofList (redirectLine bindings [] s.toList) }

/-- Reads a module text and redirects its call sites. -/
def parse (path source : String) (mode : Scoping) : Except BundleError Module :=
  (read path source).map (redirectCalls mode)

end Module

end ModuleBundler
