import ModuleBundler.Bundle.Bootstrap
import ModuleBundler.Bundle.Registration
import ModuleBundler.Scan

/-!
Bundles: the bootstrap, a block for each scanned module in finishing order, and a call of the
entry.
-/

namespace ModuleBundler.Bundle

/-- The kinds of content a bundle can be made of. -/
inductive ContentType where
  | javascript
  deriving DecidableEq, Repr

namespace ContentType

/-- The content type a name stands for. -/
def ofName? : String → Option ContentType
  | "javascript" | "js" => some .javascript
  | _ => none

/-- The name of the content type. -/
def name : ContentType → String
  | .javascript => "javascript"

/-- The media type of the content. -/
def mime : ContentType → String
  | .javascript => "text/javascript"

end ContentType

/-- How a bundle is made: how call sites are redirected, and whether the bundle ends by
calling the entry. -/
structure Options where
  mode : Scoping := .textual
  invokeEntry : Bool := true

/-- The bundle of a scanned registry. -/
def render (opts : Options) (reg : Registry) : Except BundleError String :=
  match reg.registrationNames with
  | .error e => .error e
  | .ok names =>
    .ok (bootstrap ++
      String.join (names.filterMap fun (key, ns) =>
        (reg.get? key).map fun m => "\n" ++ registration m ns) ++
      (if opts.invokeEntry then "\n" ++ registryLookup reg.entry ++ ";\n" else ""))

/-- Scans from `entry` (its leading slashes dropped) under `base` and writes the bundle. -/
def make (ws : Workspace) (opts : Options) (base entry : String) : Except BundleError String :=
  match (Scanner.new ws base opts.mode).scan (String.ofList (entry.toList.dropWhile (· = '/'))) with
  | .error e => .error e
  | .ok reg => render opts reg

/-- Appends the bundle to `buffer`; on failure the buffer stays as it was and the failure is
given beside it. -/
def appendTo (buffer : String) (ws : Workspace) (opts : Options) (base entry : String) :
    String × Option BundleError :=
  match make ws opts base entry with
  | .ok bundle => (buffer ++ bundle, none)
  | .error e => (buffer, some e)

end ModuleBundler.Bundle
