import ModuleBundler.Module.Basic
import ModuleBundler.Module.Block
import ModuleBundler.Module.Header
import ModuleBundler.Import.Statement

/-!
Reading a module text item by item.

Each item starts on a line that is not blank, not `;` and not a leading comment. A line that
opens an import, a function, the class, or anything else decides what the item is; the item
then takes as many lines as its braces and parentheses need. Class bodies are read the same
way, member by member.
-/

namespace ModuleBundler

open ModuleBundler.Text ModuleBundler.Syntax

namespace Module

/-- The local name a default export without a name of its own is bound to. -/
def anonymousDefault : String := "__default"

/-- What has been read of a module so far. -/
structure Draft where
  imports : List Import := []
  cls : Option ClassDecl := none
  functions : List FunctionDecl := []
  statements : List String := []
  exports : List ExportBinding := []
  defaultExport : Option String := none

/-- Whether an import statement still has an open `{` that a later line may close. -/
def openClause (stmt : List Char) : Bool :=
  stmt.contains '\x7b' && !stmt.contains '\x7d'

/-- Joins lines to an import statement until it is complete; gives the statement and the number
of lines joined, or the statement that cannot be completed. -/
def gatherImport (stmt : List Char) (extra : Nat) : List Line → Except (List Char) (List Char × Nat)
  | [] => if Import.isComplete stmt then .ok (stmt, extra) else .error stmt
  | m :: ms =>
    if Import.isComplete stmt then .ok (stmt, extra)
    else if !openClause stmt then .error stmt
    else gatherImport (stmt ++ ' ' :: stripTrailingComment (trim m.text)) (extra + 1) ms

/-- An import item. -/
def importItem (d : Draft) (l : Line) (later : List Line) : Except ParseFailure (Draft × Nat) :=
  let bad (stmt : List Char) : ParseFailure := ⟨l.number, .unrecognizedImport (String.ofList stmt)⟩
  match gatherImport (stripTrailingComment (trim l.text)) 0 later with
  | .error stmt => .error (bad stmt)
  | .ok (stmt, extra) =>
    match Import.ofStatement stmt l.number with
    | some imports => .ok ({ d with imports := d.imports ++ imports }, extra)
    | none => .error (bad stmt)

/-- A top-level function item; it joins the class's trailing functions once the class is
read. -/
def functionItem (d : Draft) (l : Line) (later : List Line) (h : Header.FunctionHeader) :
    Except ParseFailure (Draft × Nat) :=
  let name := String.ofList h.name
  match Line.functionAt l later (indentation l.text + h.paren) name h.exported h.isAsync with
  | .error e => .error e
  | .ok (f, extra) =>
    let d := if h.isDefault then { d with defaultExport := some name } else d
    match d.cls with
    | some c => .ok ({ d with cls := some { c with trailing := c.trailing ++ [f] } }, extra)
    | none => .ok ({ d with functions := d.functions ++ [f] }, extra)

/-- A field ends where its braces close; one brace too many closes the class too early. -/
def fieldEnd (st : Brace.State) (cur : Line) (member : List Char) (extra : Nat) :
    Except ParseFailure (List Char × Nat) :=
  if st.depth < 0 then .error ⟨cur.number, .strayCloseInClass⟩ else .ok (member, extra)

/-- Continues a field whose initializer is still open, joining each further line trimmed. -/
def fieldRest (first : Line) (st : Brace.State) (member : List Char) (cur : Line) (extra : Nat) :
    List Line → Except ParseFailure (List Char × Nat)
  | [] =>
    if st.depth > 0 || st.midToken then .error ⟨first.number, .unterminatedMember⟩
    else fieldEnd st cur member extra
  | m :: ms =>
    if st.depth > 0 || st.midToken then
      fieldRest first (st.feed m.text).1 (member ++ ' ' :: trim m.text) m (extra + 1) ms
    else fieldEnd st cur member extra

/-- Reads the members of a class body. -/
def members (c : ClassDecl) : List Line → Except ParseFailure ClassDecl
  | [] => .ok c
  | l :: later =>
    let t := trim l.text
    if t.isEmpty || t = [';'] then members c later
    else
      match _hc : Line.leadingComment l later with
      | .error e => .error e
      | .ok (some ls) => members c ls
      | .ok none =>
        if Header.isAccessor t then .error ⟨l.number, .accessor c.name⟩
        else if Header.isPrivate t then .error ⟨l.number, .privateMember c.name⟩
        else
          match Header.method? t with
          | some h =>
            match Line.functionAt l later (indentation l.text + h.paren) (String.ofList h.name)
                false h.isAsync with
            | .error e => .error e
            | .ok (f, extra) =>
              if f.name = "constructor" then
                if c.ctor.isSome then .error ⟨l.number, .secondConstructor c.name⟩
                else members { c with ctor := some f } ((l :: later).drop (extra + 1))
              else members { c with methods := c.methods ++ [f] } ((l :: later).drop (extra + 1))
          | none =>
            match fieldRest l (Brace.State.initial.feed l.text).1 t l 0 later with
            | .error e => .error e
            | .ok (member, extra) =>
              members { c with fields := c.fields ++ [String.ofList member] }
                ((l :: later).drop (extra + 1))
termination_by ls => (ls.length, Line.headRoom ls)
decreasing_by
  · exact Line.lex_tail l later
  · exact Line.lex_leadingComment _hc
  · exact Line.lex_drop l later extra
  · exact Line.lex_drop l later extra
  · exact Line.lex_drop l later extra

/-- A class item: the class with its body read. -/
def classItem (d : Draft) (l : Line) (later : List Line) (h : Header.ClassHeader) :
    Except ParseFailure (Draft × Nat) :=
  let name := String.ofList h.name
  match d.cls with
  | some c => .error ⟨l.number, .secondClass c.name c.line⟩
  | none =>
    if "extends".toList.isPrefixOf h.rest then .error ⟨l.number, .inheritance name⟩
    else
      match Line.braceSpot l (indentation l.text + h.restAt) later (.classDecl name) with
      | .error e => .error e
      | .ok spot =>
        match Line.body spot.line spot.pos spot.more with
        | .error e => .error e
        | .ok b =>
          match members ⟨name, h.exported, l.number, none, [], [], []⟩ b.lines with
          | .error e => .error e
          | .ok c =>
            let d := if h.isDefault then { d with defaultExport := some name } else d
            .ok ({ d with cls := some c }, spot.extra + b.extra)

/-- Records the entries of `export { … }`. -/
def exportList (d : Draft) (lineNo : Nat) (list : List Char) : Except ParseFailure Draft :=
  (commaItems list).foldlM
    (fun d entry =>
      let binding : Option ExportBinding :=
        match words entry with
        | [name] => some ⟨String.ofList name, String.ofList name⟩
        | [name, as, exported] =>
          if as = "as".toList then some ⟨String.ofList exported, String.ofList name⟩ else none
        | _ => none
      match binding with
      | none => .error ⟨lineNo, .unsupportedExportSpecifier (String.ofList entry)⟩
      | some b =>
        if b.exported = defaultMemberName then .ok { d with defaultExport := some b.localName }
        else .ok { d with exports := d.exports ++ [b] })
    d

/-- Continues a statement while its braces, a block comment or a template literal are open. -/
def statementRest (first : Line) (st : Brace.State) (stmts : List String) (extra : Nat) :
    List Line → Except ParseFailure (List String × Nat)
  | [] => if st.depth > 0 || st.midToken then .error ⟨first.number, .unterminatedBlock⟩
    else .ok (stmts, extra)
  | m :: ms =>
    if st.depth > 0 || st.midToken then
      let st' := (st.feed m.text).1
      if st'.depth < 0 then .error ⟨m.number, .strayCloseAtTop⟩
      else statementRest first st' (stmts ++ [String.ofList m.text]) (extra + 1) ms
    else .ok (stmts, extra)

/-- Any other item: an export form or a statement, kept as written. -/
def statementItem (d : Draft) (l : Line) (later : List Line) : Except ParseFailure (Draft × Nat) :=
  let t := trim l.text
  let indent := l.text.take (indentation l.text)
  match Header.exportList? t with
  | some list => (exportList d l.number list).map fun d => (d, 0)
  | none =>
    let start : Except ParseFailure (List Char × Draft) :=
      match Header.exportDeclaration? t with
      | some name =>
        let name := String.ofList name
        .ok (indent ++ trimStart (t.drop 6), { d with exports := d.exports ++ [⟨name, name⟩] })
      | none =>
        match Header.exportDefault? t with
        | some r =>
          .ok (indent ++ ("const " ++ anonymousDefault ++ " = ").toList ++ r,
            { d with defaultExport := some anonymousDefault })
        | none =>
          if "export ".toList.isPrefixOf t || "export\x7b".toList.isPrefixOf t then
            .error ⟨l.number, .unsupportedExport (String.ofList t)⟩
          else .ok (l.text, d)
    match start with
    | .error e => .error e
    | .ok (first, d) =>
      let st := (Brace.State.initial.feed first).1
      if st.depth < 0 then .error ⟨l.number, .strayCloseAtTop⟩
      else
        match statementRest l st [String.ofList first] 0 later with
        | .error e => .error e
        | .ok (stmts, extra) => .ok ({ d with statements := d.statements ++ stmts }, extra)

/-- The item that starts at line `l`, and how many later lines it takes. -/
def item (d : Draft) (l : Line) (later : List Line) : Except ParseFailure (Draft × Nat) :=
  let t := trim l.text
  if Header.isImportStart t then importItem d l later
  else if Header.isGenerator t then .error ⟨l.number, .generator⟩
  else
    match Header.function? t with
    | some h => functionItem d l later h
    | none =>
      match Header.class? t with
      | some h => classItem d l later h
      | none => statementItem d l later

/-- Reads the items of a module. -/
def items (d : Draft) : List Line → Except ParseFailure Draft
  | [] => .ok d
  | l :: later =>
    let t := trim l.text
    if t.isEmpty || t = [';'] then items d later
    else
      match _hc : Line.leadingComment l later with
      | .error e => .error e
      | .ok (some ls) => items d ls
      | .ok none =>
        match item d l later with
        | .error e => .error e
        | .ok (d', extra) => items d' ((l :: later).drop (extra + 1))
termination_by ls => (ls.length, Line.headRoom ls)
decreasing_by
  · exact Line.lex_tail l later
  · exact Line.lex_leadingComment _hc
  · exact Line.lex_drop l later extra

/-- Reads a module text; `path` names the module in failures and gives its factory name. The
call sites in it are left as they are. -/
def read (path : String) (source : String) : Except BundleError Module :=
  match items {} (Line.ofSource source.toList) with
  | .error f => .error (.parse path f.line f.problem)
  | .ok d =>
    .ok { name := factoryName path, path, imports := d.imports, cls := d.cls,
          functions := d.functions, statements := d.statements, exports := d.exports,
          defaultExport := d.defaultExport }

end Module

end ModuleBundler
