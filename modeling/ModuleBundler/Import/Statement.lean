import ModuleBundler.Import.Basic
import ModuleBundler.Syntax.Identifier

/-!
Reading one import statement.

`import 'spec';` imports for its side effects. `import <clause> from 'spec';` takes a clause:
a default name, a braced list of names and `member as name` pairs, `* as name`, or a default
name, a comma and one of the other two. Either quote may open or close the specifier, and
blanks and one `;` may end the statement.
-/

namespace ModuleBundler.Import

open ModuleBundler.Text ModuleBundler.Syntax

/-- Whether a character is a quote that may delimit a specifier. -/
def isQuote (c : Char) : Bool :=
  c = '\'' || c = '"'

/-- A quoted specifier that ends the statement: the specifier, when `cs` is blanks, a quote,
at least one character that is not a quote, a quote, and a statement end. -/
def quotedTail (cs : List Char) : Option (List Char) :=
  match trimStart cs with
  | q :: rest =>
    if isQuote q then
      let spec := rest.takeWhile (fun c => !isQuote c)
      match rest.dropWhile (fun c => !isQuote c) with
      | _ :: after => if !spec.isEmpty && isStatementEnd after then some spec else none
      | [] => none
    else none
  | [] => none

/-- The specifier of a statement `import 'spec'`. -/
def sideEffectSource (cs : List Char) : Option (List Char) :=
  (afterWord "import".toList cs).bind quotedTail

/-- The specifier after a clause: blanks, `from`, and a quoted specifier that ends the
statement. -/
def fromTail (cs : List Char) : Option (List Char) :=
  (afterWord "from".toList (trimStart cs)).bind quotedTail

/-- The shortest clause of length at least one at the start of `cs` that a `from` tail
follows, with that tail's specifier. -/
def shortestClause (cs : List Char) : Option (List Char × List Char) :=
  ((List.range cs.length).map (· + 1)).findSome? fun n =>
    (fromTail (cs.drop n)).map fun spec => (cs.take n, spec)

/-- The clause and specifier of a statement `import <clause> from 'spec'`: the blanks after
`import` go to the clause only when no split leaves them out, and the clause is the shortest
that works. -/
def clauseAndSource (cs : List Char) : Option (List Char × List Char) :=
  (afterWord "import".toList cs).bind fun rest =>
    let lead := indentation rest
    (List.range (lead + 1)).reverse.findSome? fun k => shortestClause (rest.drop k)

/-- The text is a whole import statement. -/
def isComplete (cs : List Char) : Bool :=
  (clauseAndSource cs).isSome || (sideEffectSource cs).isSome

/-- The name of a clause `* as name`. -/
def namespaceName (cs : List Char) : Option (List Char) :=
  ((afterWord "*".toList cs).bind fun rest =>
    afterKeyword "as".toList (trimStart rest)).bind fun name =>
      if isIdentifier name then some name else none

/-- One entry of a braced list: a name, or `member as name`; gives the local name and, for
the second form, the member. -/
def listEntry (entry : List Char) : Option (String × Option String) :=
  match words entry with
  | [name] => if isIdentifier name then some (String.ofList name, none) else none
  | [member, as, name] =>
    if as = "as".toList && isIdentifier member && isIdentifier name then
      some (String.ofList name, some (String.ofList member))
    else none
  | _ => none

/-- Adds one entry of a braced list to the names and aliases read so far. -/
def addEntry (acc : List String × List (String × String)) (entry : List Char) :
    Option (List String × List (String × String)) :=
  (listEntry entry).map fun
    | (name, none) => (insertSorted name acc.1, acc.2)
    | (name, some member) => (insertSorted name acc.1, insertEntry name member acc.2)

/-- The names and aliases of a braced list `{ … }`. -/
def bracedList (cs : List Char) : Option (List String × List (String × String)) :=
  match cs with
  | '\x7b' :: rest =>
    if rest.getLast? = some '\x7d' then (commaItems rest.dropLast).foldlM addEntry ([], [])
    else none
  | _ => none

/-- The imports that follow a default name, or make up a clause without one. -/
def restOfClause (source : String) (line : Nat) (rest : List Char) (before : List Import) :
    Option (List Import) :=
  if rest.isEmpty then
    if before.isEmpty then none else some before
  else
    match namespaceName rest with
    | some name =>
      some (before ++ [⟨.namespaceObject, source, [String.ofList name], [], line⟩])
    | none =>
      (bracedList rest).map fun (names, aliases) =>
        before ++ [⟨.named, source, names, aliases, line⟩]

/-- The imports a clause declares, for the statement's specifier and line: a braced list or a
namespace clause alone, or a default name followed by a comma and one of them. -/
def ofClause (clause : List Char) (source : String) (line : Nat) : Option (List Import) :=
  match clause with
  | c :: _ =>
    if c = '\x7b' || c = '*' then restOfClause source line clause []
    else
      let (first, rest) :=
        match clause.splitOn ',' with
        | [whole] => (whole, [])
        | first :: more => (trim first, trim (",".toList.intercalate more))
        | [] => ([], [])
      if isIdentifier first then
        restOfClause source line rest [⟨.defaultMember, source, [String.ofList first], [], line⟩]
      else none
  | [] => none

/-- The imports a statement declares, each with the given line; `none` when the statement is
not one this reader accepts. -/
def ofStatement (statement : List Char) (line : Nat) : Option (List Import) :=
  let stmt := trim statement
  match sideEffectSource stmt with
  | some spec => some [⟨.sideEffect, String.ofList spec, [], [], line⟩]
  | none =>
    (clauseAndSource stmt).bind fun (clause, spec) => ofClause (trim clause) (String.ofList spec) line

end ModuleBundler.Import
