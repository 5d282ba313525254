import ModuleBundler.Registry
import ModuleBundler.CallSite
import ModuleBundler.Workspace

/-!
Scanning a tree of modules from an entry file.

A scan reads the entry, then, depth first and in order, every module its imports resolve to;
a key already in the registry is not read again, so cycles end. A module's scan finishes after
those of its imports. Keys are paths relative to the root, so that different spellings of one
file share a key; a file outside the root keeps its whole path as key.

An import chain without repeats registers a new key at each level, and the keys of paths that
can be read are fewer than `Workspace.spellingBound`, so a scan never goes deeper than that; the
depth bound only makes it explicit.
-/

namespace ModuleBundler

/-- What a scan needs: the file tree, the normalised root, and how call sites are redirected. -/
structure Scanner where
  workspace : Workspace
  root : Path
  mode : Scoping := .textual

namespace Scanner

/-- A scanner rooted at `base`, which is normalised. -/
def new (workspace : Workspace) (base : String) (mode : Scoping) : Scanner :=
  ⟨workspace, (Path.ofString base).normalize, mode⟩

/-- The key of a path: its components below the root joined by `/`, or, outside the root, the
whole path with `\` turned into `/`. -/
def keyFor (sc : Scanner) (p : Path) : String :=
  match p.stripPrefix? sc.root with
  | some rest => "/".intercalate rest
  | none => String.ofList (p.toString.toList.map fun c => if c = '\\' then '/' else c)

/-- The file a specifier in the module at `importer` names: a specifier starting with `/` is
taken from the root, any other from the importer's directory. A path without extension may
name a `.js` file. -/
def resolve (sc : Scanner) (importer : Path) (importerKey spec : String) :
    Except BundleError Path :=
  let joined := match spec.toList with
    | '/' :: rest => sc.root.join (Path.ofString (String.ofList rest))
    | _ => (importer.parent?.getD Path.empty).join (Path.ofString spec)
  let resolved := joined.normalize
  if sc.workspace.isFile resolved then .ok resolved
  else
    let withJs := resolved.addExtension "js"
    if !resolved.hasExtension && sc.workspace.isFile withJs then .ok withJs
    else .error (.unresolved spec importerKey resolved)

/-- Scans the module at `path` and, depth first, what it imports, with at most `depth` levels
of nesting; gives the module's key and the registry after its scan. -/
def visit (sc : Scanner) : Nat → Path → Registry → Except BundleError (String × Registry)
  | 0, path, _ => .error (.tooDeep path)
  | depth + 1, path, reg =>
    let key := sc.keyFor path
    if reg.has key then .ok (key, reg)
    else
      match sc.workspace.read path with
      | .error f => .error (.unreadable path.toString f)
      | .ok source =>
        match Module.parse key source sc.mode with
        | .error e => .error e
        | .ok m =>
          let step (reg : Registry) (spec : String) : Except BundleError Registry :=
            match sc.resolve path key spec with
            | .error e => .error e
            | .ok target =>
              match sc.visit depth target reg with
              | .error e => .error e
              | .ok (child, reg) => .ok (reg.addAlias child spec)
          match m.specifiers.foldlM step (reg.insert key m) with
          | .error e => .error e
          | .ok reg => .ok (key, reg.finish key)

/-- Scans from an entry path relative to the root. -/
def scan (sc : Scanner) (entry : String) : Except BundleError Registry :=
  let start := (sc.root.join (Path.ofString entry)).normalize
  match sc.visit (sc.workspace.spellingBound + 1) start {} with
  | .error e => .error e
  | .ok (key, reg) => .ok { reg with entry := key }

end Scanner

end ModuleBundler
