import ModuleBundler.Service.Basic
import ModuleBundler.Report.Registry

/-!
The command line: `module-aggregate [OPTIONS] <BASE_DIR> <ENTRY> [PROFILES]`.

It serves the bundle of an entry module below a base directory, as the content service does
for one request, or with `--scan` prints the registry of the scan as indented JSON. A failure
is reported as `error[CODE]: message`. Arguments are read the usual way: options may stand
anywhere, `--rewrite` takes its value as the next argument or after `=`, and `--` ends the
options.
-/

namespace ModuleBundler.Command

/-- What a run is asked to do. -/
structure Invocation where
  base : String
  entry : String
  profiles : Option String := none
  scanOnly : Bool := false
  options : Bundle.Options := {}

/-- What the arguments ask for: a run, the help text, or the version. -/
inductive Request where
  | run (inv : Invocation)
  | help
  | version

/-- The program's name. -/
def programName : String := "module-aggregate"

/-- The program's version. -/
def versionText : String := programName ++ " 0.1.0\n"

/-- The usage line. -/
def usage : String :=
  "Usage: " ++ programName ++ " [OPTIONS] <BASE_DIR> <ENTRY> [PROFILES]"

/-- The help text. -/
def helpText : String :=
  "\n".intercalate [
    "Bundle an ES6 module tree into a single script",
    "",
    usage,
    "",
    "Arguments:",
    "  <BASE_DIR>  Directory module keys are relative to",
    "  <ENTRY>     Entry module, relative to the base directory",
    "  [PROFILES]  Comma-separated profiles (e.g. \"debug,nocache\")",
    "",
    "Options:",
    "      --scan               Print the scanned module registry as JSON instead of the bundle",
    "      --rewrite <REWRITE>  How import call sites are rewritten [default: textual] " ++
      "[possible values: textual, shadow-aware]",
    "      --no-invoke          Do not append the entry invocation",
    "  -h, --help               Print help",
    "  -V, --version            Print version",
    ""]

/-- A usage error: its first line, then the usage and a pointer to the help. -/
def usageError (first : String) : String :=
  "error: " ++ first ++ "\n\n" ++ usage ++ "\n\nFor more information, try '--help'.\n"

/-- The scoping a value of `--rewrite` names. -/
def modeOf? : String → Option Scoping
  | "textual" => some .textual
  | "shadow-aware" => some .shadowAware
  | _ => none

/-- The error for a value of `--rewrite` that names no mode. -/
def badMode (v : String) : String :=
  "error: invalid value '" ++ v ++ "' for '--rewrite <REWRITE>'\n" ++
    "  [possible values: textual, shadow-aware]\n\nFor more information, try '--help'.\n"

/-- What has been read of the arguments: options and the positional arguments so far. -/
structure Reading where
  scanOnly : Bool := false
  mode : Scoping := .textual
  invoke : Bool := true
  positional : List String := []

/-- Reads arguments one by one; after `--` every argument is positional. -/
def readArgs (r : Reading) (optionsDone : Bool) : List String → Except String (Option Reading)
  | [] => .ok (some r)
  | a :: rest =>
    if optionsDone || !a.startsWith "-" || a = "-" then
      readArgs { r with positional := r.positional ++ [a] } optionsDone rest
    else if a = "--" then readArgs r true rest
    else if a = "--help" || a = "-h" || a = "--version" || a = "-V" then .ok none
    else if a = "--scan" then readArgs { r with scanOnly := true } optionsDone rest
    else if a = "--no-invoke" then readArgs { r with invoke := false } optionsDone rest
    else if a = "--rewrite" then
      match rest with
      | v :: rest' =>
        match modeOf? v with
        | some m => readArgs { r with mode := m } optionsDone rest'
        | none => .error (badMode v)
      | [] =>
        .error ("error: a value is required for '--rewrite <REWRITE>' but none was supplied\n" ++
          "  [possible values: textual, shadow-aware]\n\nFor more information, try '--help'.\n")
    else if a.startsWith "--rewrite=" then
      let v := String.ofList (a.toList.drop 10)
      match modeOf? v with
      | some m => readArgs { r with mode := m } optionsDone rest
      | none => .error (badMode v)
    else .error (usageError ("unexpected argument '" ++ a ++ "' found"))

/-- The first of the help and version flags among the options, if any. -/
def infoFlag : List String → Option Request
  | [] => none
  | a :: rest =>
    if a = "--" then none
    else if a = "--help" || a = "-h" then some .help
    else if a = "--version" || a = "-V" then some .version
    else infoFlag rest

/-- Reads the arguments after the program's name. -/
def Request.ofArgs (args : List String) : Except String Request :=
  match readArgs {} false args with
  | .error e => .error e
  | .ok none => .ok ((infoFlag args).getD .help)
  | .ok (some r) =>
    let opts : Bundle.Options := ⟨r.mode, r.invoke⟩
    match r.positional with
    | [] =>
      .error ("error: the following required arguments were not provided:\n  <BASE_DIR>\n" ++
        "  <ENTRY>\n\n" ++ usage ++ "\n\nFor more information, try '--help'.\n")
    | [_] =>
      .error ("error: the following required arguments were not provided:\n  <ENTRY>\n\n" ++
        usage ++ "\n\nFor more information, try '--help'.\n")
    | [base, entry] => .ok (.run ⟨base, entry, none, r.scanOnly, opts⟩)
    | [base, entry, profiles] => .ok (.run ⟨base, entry, some profiles, r.scanOnly, opts⟩)
    | _ :: _ :: _ :: extra :: _ => .error (usageError ("unexpected argument '" ++ extra ++ "' found"))

/-- The output of a run over a file tree: the registry as indented JSON with `--scan`, else
the body the content service gives for the entry. -/
def Invocation.output (inv : Invocation) (ws : Workspace) : Except BundleError String :=
  if inv.scanOnly then
    let sc := Scanner.new ws inv.base inv.options.mode
    match sc.scan (String.ofList (inv.entry.toList.dropWhile (· = '/'))) with
    | .error e => .error e
    | .ok reg => .ok ((Report.registry reg).pretty ++ "\n")
  else
    let cfg : Service.Config := ⟨inv.base, [], inv.options⟩
    (Service.get cfg ws {} inv.entry inv.profiles).1.map (·.body)

/-- The line that reports a failure. -/
def report (e : BundleError) : String :=
  "error[" ++ e.code ++ "]: " ++ e.message

/-- The path a failure looked for and did not find as a readable file, if it names one: a run
that reads the file system lazily learns the directory around it and tries again. -/
def sought? : BundleError → Option Path
  | .unresolved _ _ lookedFor => some lookedFor
  | .unreadable path _ => some (Path.ofString path)
  | _ => none

end ModuleBundler.Command
