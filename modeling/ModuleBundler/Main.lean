import ModuleBundler.Command

/-!
The `module-aggregate` program.

It reads its arguments, then runs over a view of the file system that starts empty: whenever
a run fails for want of a path, the listing of the directory around it (or of the nearest
ancestor not yet listed) is read in, with the contents of its files, and the run is tried
again. Each retry lists a new directory, so the runs stop; the last one is the answer.
-/

namespace ModuleBundler.Cli

open ModuleBundler.Command

/-- The names of a path below the file-system root, with relative paths taken from `home`. -/
def absoluteNames (home : List String) (p : Path) : List String :=
  let full := if p.rooted then p else (Path.mk true (home.map Step.down)).join p
  full.normalize.steps.filterMap fun
    | .down n => some n
    | .up => none

/-- The directory to list next for a path that was not found: the path's directory or its
nearest ancestor that is not listed yet. -/
def nextToList (listed : List (List String)) (dir : List String) : Option (List String) :=
  ((List.range (dir.length + 1)).reverse.map dir.take).find? (· ∉ listed)

/-- The location on disk of a list of names below the file-system root. -/
def locationOf (names : List String) := do
  let cwd ← IO.currentDir
  return cwd / ("/" ++ "/".intercalate names)

/-- Adds the files and directories listed in a directory to the workspace; a directory that
cannot be listed adds nothing. -/
def learn (ws : Workspace) (dir : List String) : IO Workspace := do
  let here ← locationOf dir
  let listing ← try here.readDir catch _ => pure #[]
  let mut ws := ws
  for e in listing do
    let names := dir ++ [e.fileName]
    match ← (try (some <$> e.path.metadata) catch _ => pure none) with
    | some md =>
      if md.type == .dir then
        ws := ws.write names .dir
      else if md.type == .file then
        match ← (try (some <$> IO.FS.readBinFile e.path) catch _ => pure none) with
        | some bytes => ws := ws.write names (.file bytes)
        | none => pure ()
    | none => pure ()
  return ws

/-- Runs until the output no longer fails for want of a path that an unlisted directory could
hold. -/
partial def settle (inv : Invocation) (home : List String) (ws : Workspace)
    (listed : List (List String)) : IO (Except BundleError String) := do
  match inv.output ws with
  | .ok out => return .ok out
  | .error e =>
    match sought? e with
    | none => return .error e
    | some p =>
      match nextToList listed (absoluteNames home p).dropLast with
      | none => return .error e
      | some dir => settle inv home (← learn ws dir) (listed ++ [dir])

end ModuleBundler.Cli

open ModuleBundler ModuleBundler.Command ModuleBundler.Cli in
/-- Reads the arguments, runs, and prints the output or the failure. -/
def main (args : List String) : IO UInt32 := do
  match Request.ofArgs args with
  | .error msg =>
    IO.eprint msg
    return 2
  | .ok .help =>
    IO.print helpText
    return 0
  | .ok .version =>
    IO.print versionText
    return 0
  | .ok (.run inv) =>
    let cwd ← IO.currentDir
    let home := absoluteNames [] (Path.ofString cwd.toString)
    match ← settle inv home { entries := [], home := some home } [] with
    | .ok out =>
      let out' ← IO.getStdout
      out'.putStr out
      out'.flush
      return 0
    | .error e =>
      IO.eprintln (report e)
      return 1
