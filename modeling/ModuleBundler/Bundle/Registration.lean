import ModuleBundler.CallSite

/-!
The block a bundle holds for one module.

The block wraps the module in a factory function: the class's fields become `let`
declarations, then come the statements as written, the functions, the class's constructor
(which returns `this`), its methods and the functions after it, and last an object of the
module's exports. The factory is registered under each of the module's names.
-/

namespace ModuleBundler.Bundle

open ModuleBundler.Text

/-- One level of indentation. -/
def indent : String := "    "

/-- A class field as a declaration in the factory: a `let`, `const` or `var` field is kept;
otherwise `static` is dropped and the field becomes a `let` ended by `;`. -/
def fieldDeclaration (field : String) : String :=
  let m := trim field.toList
  if ["let ", "const ", "var "].any fun k => k.toList.isPrefixOf m then String.ofList m
  else
    let f := trimStart (if "static ".toList.isPrefixOf m then m.drop 7 else m)
    if f.getLast? = some ';' then "let " ++ String.ofList f else "let " ++ String.ofList f ++ ";"

/-- A function declaration in the factory, named `name`; a constructor also returns `this`. -/
def functionText (name : String) (f : FunctionDecl) (returnsThis : Bool) : String :=
  indent ++ indent ++ (if f.isAsync then "async " else "") ++ "function " ++ name ++ f.params ++
    " \x7b\n" ++ String.join (f.body.map (· ++ "\n")) ++
    (if returnsThis then indent ++ indent ++ indent ++ "return this;\n" else "") ++
    indent ++ indent ++ "\x7d\n"

/-- The constructor written for a class that declares none. -/
def defaultConstructor (cls : String) : String :=
  indent ++ indent ++ "function " ++ cls ++ "() \x7b\n" ++ indent ++ indent ++ indent ++
    "return this;\n" ++ indent ++ indent ++ "\x7d\n"

/-- Adds a property unless one of that name is there already. -/
def addProperty (props : List (String × String)) (p : String × String) : List (String × String) :=
  if props.any (·.1 = p.1) then props else props ++ [p]

/-- The properties of the object a factory returns, each name once, the first value given for
it kept: exported functions, the class and its methods when the class is exported or the
default export, exported functions after the class, export bindings, and `default`. -/
def exportProperties (m : Module) : List (String × String) :=
  let own (f : FunctionDecl) : String × String := (f.name, f.name)
  let classProps := match m.cls with
    | some c =>
      (if c.exported || m.defaultExport = some c.name then (c.name, c.name) :: c.methods.map own
       else []) ++ (c.trailing.filter (·.exported)).map own
    | none => []
  ((m.functions.filter (·.exported)).map own ++ classProps ++
      m.exports.map (fun b => (b.exported, b.localName)) ++
      (m.defaultExport.map fun l => (defaultMemberName, l)).toList).foldl addProperty []

/-- A class field as a line of the factory. -/
def fieldLine (field : String) : String :=
  indent ++ indent ++ fieldDeclaration field ++ "\n"

/-- The functions a class becomes: its constructor (or one that only returns `this`), its
methods and the functions after it. -/
def classFunctionTexts (c : ClassDecl) : List String :=
  (match c.ctor with
    | some k => functionText c.name k true
    | none => defaultConstructor c.name) ::
    (c.methods ++ c.trailing).map fun f => functionText f.name f false

/-- The object a factory returns, one property a line. -/
def returnedObject (m : Module) : String :=
  indent ++ indent ++ "return \x7b\n" ++
    String.join ((exportProperties m).map fun (k, v) =>
      indent ++ indent ++ indent ++ k ++ ": " ++ v ++ ",\n") ++
    indent ++ indent ++ "\x7d;\n"

/-- What a factory runs: the class's fields as declarations, the statements as written, the
functions, the class's functions, and the return of its object. -/
def factoryBody (m : Module) : String :=
  String.join (((m.cls.map ClassDecl.fields).getD []).map fieldLine) ++
    String.join (m.statements.map (· ++ "\n")) ++
    String.join (m.functions.map fun f => functionText f.name f false) ++
    String.join ((m.cls.map classFunctionTexts).getD []) ++
    returnedObject m

/-- The factory function of a module, bound to the module's factory name. -/
def factory (m : Module) : String :=
  indent ++ "let " ++ m.name ++ " = function() \x7b\n" ++ factoryBody m ++ indent ++ "\x7d;\n"

/-- The line that registers a module's factory under a name. -/
def registerLine (m : Module) (name : String) : String :=
  indent ++ registryName ++ ".register(" ++ singleQuoted name ++ ", " ++ m.name ++ ");"

/-- The block of a module: its factory, registered under each of `names`. -/
def registration (m : Module) (names : List String) : String :=
  "\x7b\n" ++ factory m ++ String.join (names.map fun n => registerLine m n ++ "\n") ++ "\x7d\n"

end ModuleBundler.Bundle
