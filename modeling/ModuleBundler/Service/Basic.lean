import ModuleBundler.Bundle.Basic
import ModuleBundler.Digest.Sha256
import ModuleBundler.Service.Request

/-!
A content service: it serves bundles for request paths below a base directory and keeps the
results in a cache keyed by path and profiles.

Before anything else, the `clearcache` profile empties the cache. A path that climbs out of the
base directory fails. With `nocompile` the file is served as it is and not cached; otherwise a
cached result is served unless `nocache` is given, and a fresh bundle is tidied, given a digest
and cached. Failures leave the cache as it was (after the clearing). Each body made is a new
object, told apart by its serial number.
-/

namespace ModuleBundler.Service

/-- How a service is set up: the base directory as given, profiles added to every request,
and how its bundles are made. -/
structure Config where
  base : String
  baseProfiles : List String := []
  options : Bundle.Options := {}

/-- A served body with its digest, and the serial number of the object that holds it. -/
structure Content where
  body : String
  digest : String
  serial : Nat
  deriving DecidableEq, Repr

/-- The cache, each key with its content, and the serial number the next object gets. -/
structure State where
  cache : List (String × Content) := []
  nextSerial : Nat := 0

namespace State

/-- The content cached under a key. -/
def lookup (st : State) (key : String) : Option Content :=
  (st.cache.find? (·.1 = key)).map (·.2)

/-- Caches a content under a key, replacing what was there. -/
def put (st : State) (key : String) (c : Content) : State :=
  { st with cache := st.cache.filter (·.1 ≠ key) ++ [(key, c)] }

/-- Empties the cache. -/
def clear (st : State) : State :=
  { st with cache := [] }

/-- The number of cached keys. -/
def size (st : State) : Nat :=
  st.cache.length

/-- A new object holding `body`. -/
def fresh (st : State) (body : String) : Content × State :=
  (⟨body, Sha256.hexDigest body, st.nextSerial⟩, { st with nextSerial := st.nextSerial + 1 })

end State

/-- A directory path text with `rel` appended: a rooted `rel` replaces it, and a separator is
put between unless the directory is empty or already ends with one. -/
def joinText (dir rel : String) : String :=
  if rel.startsWith "/" || dir.isEmpty then rel
  else if dir.endsWith "/" then dir ++ rel
  else dir ++ "/" ++ rel

/-- The profiles a request is served with: the base ones, then those of the request's own
comma-separated list. -/
def Config.profilesFor (cfg : Config) (requested : Option String) : List String :=
  cfg.baseProfiles ++ (requested.map parseProfiles).getD []

/-- Serves a request for `path` with the profiles of `requested` added to the base ones. -/
def get (cfg : Config) (ws : Workspace) (st : State) (path : String)
    (requested : Option String) : Except BundleError Content × State :=
  let profiles := cfg.profilesFor requested
  let st := if clearCacheProfile ∈ profiles then st.clear else st
  match requestPath path with
  | .error e => (.error e, st)
  | .ok rel =>
    if noCompileProfile ∈ profiles then
      let file := joinText cfg.base rel.toString
      match ws.readText file with
      | .error f => (.error (.unreadable file f), st)
      | .ok raw => let (c, st) := st.fresh raw; (.ok c, st)
    else
      let key := cacheKey path profiles
      match (if noCacheProfile ∈ profiles then none else st.lookup key) with
      | some hit => (.ok hit, st)
      | none =>
        match Bundle.make ws cfg.options cfg.base rel.toString with
        | .error e => (.error e, st)
        | .ok bundle =>
          let (c, st) := st.fresh (postProcess bundle)
          (.ok c, st.put key c)

/-- Serves each path in turn with no profiles of its own, as a warm-up of the cache. -/
def warm (cfg : Config) (ws : Workspace) (st : State) (paths : List String) :
    List (String × Except BundleError Content) × State :=
  paths.foldl
    (fun (acc : List (String × Except BundleError Content) × State) p =>
      let (r, st) := get cfg ws acc.2 p none
      (acc.1 ++ [(p, r)], st))
    ([], st)

end ModuleBundler.Service
