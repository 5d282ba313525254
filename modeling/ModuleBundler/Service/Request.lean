import ModuleBundler.Error

/-!
What a content request carries: a path below the base directory and a list of profiles, and
how a served body is tidied.

A request path may not climb out of the base directory: after its leading slashes are dropped
and it is normalised, it must not start with `..`. Profiles come as a comma-separated list;
the cache keys a result by the request path and all its profiles.
-/

namespace ModuleBundler.Service

open ModuleBundler.Text

/-- The profile that empties the cache before a request. -/
def clearCacheProfile : String := "clearcache"

/-- The profile that computes a body afresh instead of taking it from the cache. -/
def noCacheProfile : String := "nocache"

/-- The profile that serves the file as it is, without bundling. -/
def noCompileProfile : String := "nocompile"

/-- The profiles of a comma-separated list, trimmed, empty ones left out. -/
def parseProfiles (raw : String) : List String :=
  (commaItems raw.toList).map String.ofList

/-- The cache key of a request: its path, then its profiles in brackets. -/
def cacheKey (path : String) (profiles : List String) : String :=
  path ++ "[" ++ ", ".intercalate profiles ++ "]"

/-- A served body: every line without trailing blanks, blank lines at the end dropped, and one
final newline. -/
def postProcess (content : String) : String :=
  let body := "\n".toList.intercalate ((lines content.toList).map trimEnd)
  String.ofList (trimEnd body ++ ['\n'])

/-- The path of a request relative to the base directory: normalised after its leading
slashes are dropped, and refused when it climbs out. -/
def requestPath (path : String) : Except BundleError Path :=
  let p := (Path.ofString (String.ofList (path.toList.dropWhile (· = '/')))).normalize
  match p.rooted, p.steps with
  | true, _ | _, .up :: _ => .error (.outsideBase p)
  | _, _ => .ok p

end ModuleBundler.Service
