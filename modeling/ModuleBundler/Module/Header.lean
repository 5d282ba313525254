import ModuleBundler.Syntax.Identifier

/-!
The first line of each kind of module item, read from its trimmed text.

Keywords are words followed by blanks. A declaration may start with `export` or
`export default`, and a function or method with `async`; a class member may start with
`static`. Where a keyword could also be the name itself (a method called `static` or
`async`), the reading that takes the keyword is tried first and the other one after it.
Positions are character positions in the trimmed text.
-/

namespace ModuleBundler.Header

open ModuleBundler.Text ModuleBundler.Syntax

/-- The `export` and `export default` marks in front of a declaration, and the text after. -/
structure Marks where
  exported : Bool
  isDefault : Bool
  rest : List Char

/-- Reads the `export` and `default` marks at the start of a text. -/
def marks (t : List Char) : Marks :=
  match afterKeyword "export".toList t with
  | some r =>
    match afterKeyword "default".toList r with
    | some r' => ⟨true, true, r'⟩
    | none => ⟨true, false, r⟩
  | none => ⟨false, false, t⟩

/-- Reads an `async` mark at the start of a text. -/
def asyncMark (t : List Char) : Bool × List Char :=
  match afterKeyword "async".toList t with
  | some r => (true, r)
  | none => (false, t)

/-- The name at the start of `r` followed by blanks and `(`: the name and the text from `(`. -/
def nameThenParen (r : List Char) : Option (List Char × List Char) :=
  let n := identLength r
  if n = 0 then none
  else
    match trimStart (r.drop n) with
    | '(' :: rest => some (r.take n, '(' :: rest)
    | _ => none

/-- A line that opens an import: `import` followed by a blank, `{`, `*` or a quote. -/
def isImportStart (t : List Char) : Bool :=
  match afterWord "import".toList t with
  | some (c :: _) => isBlank c || c = '\x7b' || c = '*' || c = '\'' || c = '"'
  | _ => false

/-- A line that opens a generator function: `function` followed by `*`. -/
def isGenerator (t : List Char) : Bool :=
  match afterWord "function".toList (asyncMark (marks t).rest).2 with
  | some r => (trimStart r).head? = some '*'
  | none => false

/-- The header of a top-level function. -/
structure FunctionHeader where
  exported : Bool
  isDefault : Bool
  isAsync : Bool
  name : List Char
  paren : Nat

/-- Reads `[export [default]] [async] function name (…`. -/
def function? (t : List Char) : Option FunctionHeader :=
  let m := marks t
  let (isAsync, r) := asyncMark m.rest
  (afterKeyword "function".toList r).bind fun r =>
    (nameThenParen r).map fun (name, fromParen) =>
      ⟨m.exported, m.isDefault, isAsync, name, t.length - fromParen.length⟩

/-- The header of a class: marks, name, and the text after the name with its position. -/
structure ClassHeader where
  exported : Bool
  isDefault : Bool
  name : List Char
  rest : List Char
  restAt : Nat

/-- Reads `[export [default]] class name …`. -/
def class? (t : List Char) : Option ClassHeader :=
  let m := marks t
  (afterKeyword "class".toList m.rest).bind fun r =>
    let n := identLength r
    if n = 0 then none
    else
      let rest := trimStart (r.drop n)
      some ⟨m.exported, m.isDefault, r.take n, rest, t.length - rest.length⟩

/-- The header of a method. -/
structure MethodHeader where
  isAsync : Bool
  name : List Char
  paren : Nat

/-- Reads `[static] [async] name (…`, taking each keyword as a mark before taking it as the
name. -/
def method? (t : List Char) : Option MethodHeader :=
  let attempt (isAsync : Bool) (r : List Char) : Option MethodHeader :=
    (nameThenParen r).map fun (name, fromParen) => ⟨isAsync, name, t.length - fromParen.length⟩
  let static := afterKeyword "static".toList t
  (static.bind fun r => (afterKeyword "async".toList r).bind (attempt true)) <|>
    (static.bind (attempt false)) <|>
    ((afterKeyword "async".toList t).bind (attempt true)) <|>
    attempt false t

/-- The texts left after the optional `static` and `async` marks of a class member, in every
way of reading them. -/
def memberRests (t : List Char) : List (List Char) :=
  let static := (afterKeyword "static".toList t).toList
  let starts := static ++ [t]
  starts ++ starts.filterMap (afterKeyword "async".toList)

/-- A getter, setter or generator method: `*`, or `get`/`set` and blanks before a name, `#`
or `[`. -/
def isAccessor (t : List Char) : Bool :=
  (memberRests t).any fun r =>
    match r with
    | '*' :: _ => true
    | _ =>
      ((afterKeyword "get".toList r).toList ++ (afterKeyword "set".toList r).toList).any fun r' =>
        match r' with
        | c :: _ => isIdentStart c || c = '#' || c = '['
        | [] => false

/-- A private member: `#` after the optional marks. -/
def isPrivate (t : List Char) : Bool :=
  (memberRests t).any fun r => r.head? = some '#'

/-- The text between the braces of `export { … }`, which must end the line (blanks and one
`;` aside). -/
def exportList? (t : List Char) : Option (List Char) :=
  (afterWord "export".toList t).bind fun r =>
    match trimStart r with
    | '\x7b' :: r' =>
      match r'.dropWhile (· ≠ '\x7d') with
      | _ :: after => if isStatementEnd after then some (r'.takeWhile (· ≠ '\x7d')) else none
      | [] => none
    | _ => none

/-- The name of `export const|let|var name` followed by `=`, `;` or the end. -/
def exportDeclaration? (t : List Char) : Option (List Char) :=
  (afterKeyword "export".toList t).bind fun r =>
    ((afterKeyword "const".toList r) <|> (afterKeyword "let".toList r) <|>
      (afterKeyword "var".toList r)).bind fun r' =>
      let n := identLength r'
      if n = 0 then none
      else
        match trimStart (r'.drop n) with
        | [] | '=' :: _ | ';' :: _ => some (r'.take n)
        | _ => none

/-- The text after `export default` and its blanks. -/
def exportDefault? (t : List Char) : Option (List Char) :=
  (afterKeyword "export".toList t).bind (afterKeyword "default".toList)

end ModuleBundler.Header
