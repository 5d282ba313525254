import ModuleBundler.Report.Json
import ModuleBundler.Registry

/-!
The description of a scan as a JSON document.

Functions, the class, imports, export bindings and modules are described field by field in a
fixed order; the registry lists its entry, its modules, the order their scans finished, and
the specifiers that led to each key that some specifier reached.
-/

namespace ModuleBundler.Report

/-- A function or method. -/
def function (f : FunctionDecl) : Value :=
  .obj [("name", .str f.name), ("params", .str f.params), ("exported", .bool f.exported),
    ("isAsync", .bool f.isAsync), ("line", .num f.line), ("bodyLines", .strs f.body)]

/-- The class of a module with its members. -/
def classDecl (c : ClassDecl) : Value :=
  .obj [("type", .str "CLASS"), ("name", .str c.name), ("exported", .bool c.exported),
    ("line", .num c.line), ("constructor", (c.ctor.map function).getD .null),
    ("classFunctions", .arr (c.methods.map function)),
    ("noneClassFunctions", .arr (c.trailing.map function)),
    ("classMembers", .strs c.fields)]

/-- An import declaration. -/
def importDecl (i : Import) : Value :=
  .obj [("type", .str i.kind.tag), ("sourcePath", .str i.source), ("names", .strs i.names),
    ("aliases", .obj (i.aliases.map fun (k, v) => (k, .str v))), ("line", .num i.line)]

/-- A module as read, with its call sites redirected. -/
def module (m : Module) : Value :=
  .obj [("name", .str m.name), ("path", .str m.path), ("imports", .arr (m.imports.map importDecl)),
    ("jsClass", (m.cls.map classDecl).getD .null), ("jsFuncs", .arr (m.functions.map function)),
    ("statements", .strs m.statements),
    ("exports", .arr (m.exports.map fun b =>
      .obj [("exported", .str b.exported), ("local", .str b.localName)])),
    ("defaultExport", .optStr m.defaultExport)]

/-- The registry of a scan. -/
def registry (r : Registry) : Value :=
  .obj [("entry", .str r.entry), ("modules", .obj (r.modules.map fun (k, m) => (k, module m))),
    ("order", .strs r.order), ("aliases", .obj (r.aliases.map fun (k, ss) => (k, .strs ss)))]

end ModuleBundler.Report
