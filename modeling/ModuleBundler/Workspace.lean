import ModuleBundler.Path

/-!
The file tree that modules are read from.

A workspace holds files (as bytes) and directories under one directory. Looking a path up walks
its steps the way a file system does: a name must exist and be a directory before anything is
looked up inside it, and `..` goes to the parent. A workspace either knows only its own
directory, above which there are only empty directories and below the file-system root nothing,
so that a rooted path names nothing there; or it knows the file system from its root, and its
own directory is where relative paths start.
-/

namespace ModuleBundler

/-- What a workspace holds at a path. -/
inductive Node where
  | file (bytes : ByteArray)
  | dir

/-- Why a file cannot be read. -/
inductive IoFailure where
  | notFound
  | isDirectory
  | notDirectory
  | nameTooLong
  | nulInName
  | invalidText
  deriving DecidableEq, Repr

namespace IoFailure

/-- The text a file system gives for the failure. -/
def message : IoFailure → String
  | notFound => "No such file or directory (os error 2)"
  | isDirectory => "Is a directory (os error 21)"
  | notDirectory => "Not a directory (os error 20)"
  | nameTooLong => "File name too long (os error 36)"
  | nulInName => "file name contained an unexpected NUL byte"
  | invalidText => "stream did not contain valid UTF-8"

end IoFailure

/-- The most bytes a name in a directory may have. -/
def nameMax : Nat := 255

/-- The most bytes a path given to a lookup may have. -/
def pathMax : Nat := 4095

/-- A name too long for any directory to hold. -/
def isLongName (name : String) : Bool :=
  nameMax < Text.utf8Length name.toList

/-- A path text too long for a lookup to take. -/
def isLongPath (text : String) : Bool :=
  pathMax < Text.utf8Length text.toList

/-- Files and directories, each at its list of names. A directory also exists wherever it is
a proper prefix of an entry. With `home = none` the names are below the workspace directory;
with `home = some h` they are below the file-system root and relative paths start at `h`. -/
structure Workspace where
  entries : List (List String × Node)
  home : Option (List String) := none

/-- Where a lookup stands: inside the workspace at a directory, `k ≥ 1` levels above it, at
the file-system root, at a file, or nowhere: a name that is missing, one looked up in a file,
or one too long for a directory. -/
inductive Place where
  | inside (dir : List String)
  | above (k : Nat)
  | systemRoot
  | file (bytes : ByteArray)
  | missing
  | throughFile
  | longName

namespace Workspace

/-- The empty workspace. -/
def empty : Workspace := ⟨[], none⟩

/-- The entry stored at exactly these names. -/
def node? (ws : Workspace) (names : List String) : Option Node :=
  (ws.entries.reverse.find? (·.1 = names)).map (·.2)

/-- Whether some entry lies strictly below these names. -/
def hasBelow (ws : Workspace) (names : List String) : Bool :=
  ws.entries.any fun e => names.isPrefixOf e.1 && names.length < e.1.length

/-- Stores a node at the given names, replacing what was there. -/
def write (ws : Workspace) (names : List String) (node : Node) : Workspace :=
  { ws with entries := ws.entries.filter (·.1 ≠ names) ++ [(names, node)] }

/-- Removes the entry at the given names and everything below it. -/
def remove (ws : Workspace) (names : List String) : Workspace :=
  { ws with entries := ws.entries.filter fun e => !names.isPrefixOf e.1 }

/-- The number of files. -/
def fileCount (ws : Workspace) : Nat :=
  (ws.entries.filter fun e => match e.2 with | .file _ => true | .dir => false).length

/-- A bound on the normal paths under which the files can be read. A normal path is some `..`
then names; one that can be read is no longer than `pathMax`, so it has at most that many `..`,
and it starts at the workspace's directory or at the file-system root: with those fixed, the
file it names fixes the names. -/
def spellingBound (ws : Workspace) : Nat :=
  ws.fileCount * (2 * (pathMax + 1))

/-- One step of a lookup from a place that is a directory; `last` tells whether more steps
follow. The parent of the file-system root is the root itself, and a directory refuses a
name too long for it before it looks the name up. -/
def stepFrom (ws : Workspace) (last : Bool) : Place → Step → Place
  | .inside [], .up => if ws.home.isSome then .inside [] else .above 1
  | .inside dir, .up => .inside dir.dropLast
  | .inside dir, .down name =>
    if isLongName name then .longName
    else
      match ws.node? (dir ++ [name]) with
      | some (.file bytes) => if last then .file bytes else .throughFile
      | some .dir => .inside (dir ++ [name])
      | none => if ws.hasBelow (dir ++ [name]) then .inside (dir ++ [name]) else .missing
  | .above k, .up => .above (k + 1)
  | .above _, .down name => if isLongName name then .longName else .missing
  | .systemRoot, .up => .systemRoot
  | .systemRoot, .down name => if isLongName name then .longName else .missing
  | place, _ => place

/-- Walks the steps of a path. -/
def walk (ws : Workspace) : Place → List Step → Place
  | place, [] => place
  | place, [s] => ws.stepFrom true place s
  | place, s :: rest => walk ws (ws.stepFrom false place s) rest

/-- Where a path leads. -/
def locate (ws : Workspace) (p : Path) : Place :=
  let start := match ws.home with
    | some h => .inside (if p.rooted then [] else h)
    | none => if p.rooted then .systemRoot else .inside []
  ws.walk start p.steps

/-- Whether a path names a file. A path text with a NUL character cannot be handed to the file
system, and one too long is refused before any lookup, so neither names a file. -/
def isFile (ws : Workspace) (p : Path) : Bool :=
  !p.toString.toList.contains '\x00' && !isLongPath p.toString &&
    match ws.locate p with
    | .file _ => true
    | _ => false

/-- What reading the place a lookup leads to gives: a file's text if it is UTF-8. -/
def readAt : Place → Except IoFailure String
  | .file bytes =>
    match String.fromUTF8? bytes with
    | some text => .ok text
    | none => .error .invalidText
  | .missing => .error .notFound
  | .throughFile => .error .notDirectory
  | .longName => .error .nameTooLong
  | _ => .error .isDirectory

/-- Reads a file as UTF-8 text. A path text with a NUL character cannot be handed to the file
system at all; the empty path names nothing; and a path text too long is refused before any
lookup. -/
def read (ws : Workspace) (p : Path) : Except IoFailure String :=
  if p.toString.toList.contains '\x00' then .error .nulInName
  else if p = Path.empty then .error .notFound
  else if isLongPath p.toString then .error .nameTooLong
  else readAt (ws.locate p)

/-- Reads a path given as text: a text with a NUL character is refused, the empty text names
nothing, a text too long is refused, one of only `.` components names the current directory,
and a final `/` asks for a directory, so a file there fails. -/
def readText (ws : Workspace) (text : String) : Except IoFailure String :=
  let p := Path.ofString text
  if text.toList.contains '\x00' then .error .nulInName
  else if text.isEmpty then .error .notFound
  else if isLongPath text then .error .nameTooLong
  else if text.endsWith "/" && ws.isFile p then .error .notDirectory
  else readAt (ws.locate p)

end Workspace

end ModuleBundler
