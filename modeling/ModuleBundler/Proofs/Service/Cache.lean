import ModuleBundler.Service.Basic
import Mathlib

/-!
What the content cache holds.

A cached content is always what a service with an empty cache serves, as a body, for some
request whose cache key is the entry's key; clearing the cache and storing a freshly made body
under its request's key both keep that true, so it holds however requests interleave. A
request therefore gets from the cache the fresh body of *a* request with its key. The key is
the path followed by the bracketed profiles, so two requests share a key only if one path is
the other followed by `[` and more: in a run where no request path holds `[`, every request is
served exactly what a fresh service serves it.

Main statements: `Faithful.get` (a request keeps the cache faithful), `get_body_of_faithful`
and `served_body_eq_fresh`.
-/

namespace ModuleBundler.Service

open ModuleBundler.Text

/-- The body a service with an empty cache serves for a request. -/
def freshBody (cfg : Config) (ws : Workspace) (path : String) (requested : Option String) :
    Except BundleError String :=
  (get cfg ws {} path requested).1.map Content.body

namespace State

theorem mem_of_lookup {st : State} {key : String} {c : Content} (h : st.lookup key = some c) :
    (key, c) ∈ st.cache := by
  simp only [lookup, Option.map_eq_some_iff] at h
  obtain ⟨⟨k, c'⟩, hf, rfl⟩ := h
  have hk : k = key := by simpa using List.find?_some hf
  subst hk
  exact List.mem_of_find?_eq_some hf

theorem mem_put {st : State} {key k : String} {c c' : Content} :
    (k, c') ∈ (st.put key c).cache ↔ (k = key ∧ c' = c) ∨ ((k, c') ∈ st.cache ∧ k ≠ key) := by
  simp only [put, List.mem_append, List.mem_filter, List.mem_singleton, Prod.mk.injEq,
    decide_eq_true_eq]
  exact or_comm

@[simp] theorem cache_clear {st : State} : st.clear.cache = [] := rfl

@[simp] theorem cache_fresh {st : State} {body : String} : (st.fresh body).2.cache = st.cache :=
  rfl

@[simp] theorem body_fresh {st : State} {body : String} : (st.fresh body).1.body = body := rfl

end State

section

variable {cfg : Config} {ws : Workspace}

/-- What a request yields when it is computed and not taken from the cache: the file as it is
under `nocompile`, else the tidied bundle of its path. -/
theorem freshBody_eq (path : String) (requested : Option String) :
    freshBody cfg ws path requested =
      match requestPath path with
      | .error e => .error e
      | .ok rel =>
        if noCompileProfile ∈ cfg.profilesFor requested then
          match ws.readText (joinText cfg.base rel.toString) with
          | .error f => .error (.unreadable (joinText cfg.base rel.toString) f)
          | .ok raw => .ok raw
        else (Bundle.make ws cfg.options cfg.base rel.toString).map postProcess := by
  unfold freshBody get
  cases requestPath path with
  | error e => rfl
  | ok rel =>
    dsimp only
    split
    · cases ws.readText (joinText cfg.base rel.toString) <;> rfl
    · -- an empty cache, cleared or not, has nothing to serve
      have hnone : (if clearCacheProfile ∈ cfg.profilesFor requested then ({} : State).clear
          else {}).lookup (cacheKey path (cfg.profilesFor requested)) = none := by
        split <;> rfl
      simp only [hnone, ite_self]
      cases Bundle.make ws cfg.options cfg.base rel.toString <;> rfl

/-- What a request does to the cache and what it is served. With `st₀` the state after its
`clearcache`, if any: the cache is left as in `st₀`, or holds a body made afresh stored under
the request's key; and the request is served its fresh body or a content cached in `st₀`
under its key. -/
theorem get_cases (st : State) (path : String) (requested : Option String) :
    let profiles := cfg.profilesFor requested
    let st₀ := if clearCacheProfile ∈ profiles then st.clear else st
    ((get cfg ws st path requested).2.cache = st₀.cache ∨
      ∃ c, noCompileProfile ∉ profiles ∧ freshBody cfg ws path requested = .ok c.body ∧
        (get cfg ws st path requested).2.cache = (st₀.put (cacheKey path profiles) c).cache) ∧
    ∀ c, (get cfg ws st path requested).1 = .ok c →
      freshBody cfg ws path requested = .ok c.body ∨
        (noCompileProfile ∉ profiles ∧ st₀.lookup (cacheKey path profiles) = some c) := by
  intro profiles st₀
  rw [freshBody_eq]
  unfold get
  cases requestPath path with
  | error e => exact ⟨.inl rfl, fun c h => by cases h⟩
  | ok rel =>
    dsimp only
    by_cases hn : noCompileProfile ∈ profiles
    · -- served raw: nothing is stored, and the body is the file
      simp only [profiles] at hn
      simp only [hn, if_true]
      cases ws.readText (joinText cfg.base rel.toString) with
      | error f => exact ⟨.inl rfl, fun c h => by cases h⟩
      | ok raw => exact ⟨.inl rfl, fun c h => by cases h; exact .inl rfl⟩
    · simp only [profiles] at hn
      simp only [hn, if_false]
      by_cases hc : noCacheProfile ∈ cfg.profilesFor requested
      · simp only [hc, if_true]
        cases Bundle.make ws cfg.options cfg.base rel.toString with
        | error e => exact ⟨.inl rfl, fun c h => by cases h⟩
        | ok bundle =>
          refine ⟨.inr ⟨(st₀.fresh (postProcess bundle)).1, hn, rfl, rfl⟩, fun c h => ?_⟩
          dsimp only at h
          obtain rfl := Except.ok.inj h
          left
          simp only [State.body_fresh]
          rfl
      · simp only [hc, if_false]
        cases st₀.lookup (cacheKey path profiles) with
        | some hit => exact ⟨.inl rfl, fun c h => by cases h; exact .inr ⟨hn, rfl⟩⟩
        | none =>
          cases Bundle.make ws cfg.options cfg.base rel.toString with
          | error e => exact ⟨.inl rfl, fun c h => by cases h⟩
          | ok bundle =>
            refine ⟨.inr ⟨(st₀.fresh (postProcess bundle)).1, hn, rfl, rfl⟩, fun c h => ?_⟩
            dsimp only at h
            obtain rfl := Except.ok.inj h
            left
            simp only [State.body_fresh]
            rfl

theorem State.lookup_put_self {st : State} {key : String} {c : Content} :
    (st.put key c).lookup key = some c := by
  -- the entries kept from before all have other keys
  have hn : (st.cache.filter (·.1 ≠ key)).find? (·.1 = key) = none := by
    rw [List.find?_eq_none]
    intro x hx
    simpa using (List.mem_filter.1 hx).2
  simp only [State.put, State.lookup, List.find?_append, hn, Option.none_or]
  simp

/-- A request that may use the cache and finds a content under its key is served that content,
and the state stays as it was. -/
theorem get_of_lookup {st : State} {path : String} {requested : Option String} {rel : Path}
    {c : Content} (hp : requestPath path = .ok rel)
    (hclear : clearCacheProfile ∉ cfg.profilesFor requested)
    (hn : noCompileProfile ∉ cfg.profilesFor requested)
    (hc : noCacheProfile ∉ cfg.profilesFor requested)
    (hl : st.lookup (cacheKey path (cfg.profilesFor requested)) = some c) :
    get cfg ws st path requested = (.ok c, st) := by
  unfold get
  simp only [if_neg hclear, hp, if_neg hn, if_neg hc, hl]

/-- A request that may use the cache and finds nothing under its key is served the tidied
bundle of its path, which is stored under the key. -/
theorem get_of_make {st : State} {path : String} {requested : Option String} {rel : Path}
    {bundle : String} (hp : requestPath path = .ok rel)
    (hclear : clearCacheProfile ∉ cfg.profilesFor requested)
    (hn : noCompileProfile ∉ cfg.profilesFor requested)
    (hc : noCacheProfile ∉ cfg.profilesFor requested)
    (hl : st.lookup (cacheKey path (cfg.profilesFor requested)) = none)
    (hb : Bundle.make ws cfg.options cfg.base rel.toString = .ok bundle) :
    get cfg ws st path requested =
      (.ok (st.fresh (postProcess bundle)).1,
        (st.fresh (postProcess bundle)).2.put (cacheKey path (cfg.profilesFor requested))
          (st.fresh (postProcess bundle)).1) := by
  unfold get
  simp only [if_neg hclear, hp, if_neg hn, if_neg hc, hl, hb]

/-- Every cached content is, as a body, what a fresh service serves for a request that has the
entry's key, is not served raw, and has a path that `allowed` admits. -/
def Faithful (cfg : Config) (ws : Workspace) (allowed : String → Prop) (st : State) : Prop :=
  ∀ key c, (key, c) ∈ st.cache → ∃ path requested, allowed path ∧
    cacheKey path (cfg.profilesFor requested) = key ∧
    noCompileProfile ∉ cfg.profilesFor requested ∧ freshBody cfg ws path requested = .ok c.body

section Faithful

variable {allowed : String → Prop} {st : State}

theorem faithful_empty : Faithful cfg ws allowed {} :=
  fun _ _ h => by cases h

theorem faithful_clear : Faithful cfg ws allowed st.clear :=
  fun _ _ hm => by simp at hm

/-- The cache a request looks in, emptied or not by `clearcache`, is faithful if it was. -/
theorem Faithful.prepare (h : Faithful cfg ws allowed st) (profiles : List String) :
    Faithful cfg ws allowed (if clearCacheProfile ∈ profiles then st.clear else st) := by
  split
  · exact faithful_clear
  · exact h

/-- Storing a body freshly made for a request under the request's key keeps the cache
faithful. -/
theorem Faithful.put (h : Faithful cfg ws allowed st) {path : String} {requested : Option String}
    {c : Content} (hp : allowed path) (hn : noCompileProfile ∉ cfg.profilesFor requested)
    (hb : freshBody cfg ws path requested = .ok c.body) :
    Faithful cfg ws allowed (st.put (cacheKey path (cfg.profilesFor requested)) c) := by
  intro key c' hm
  rcases State.mem_put.1 hm with ⟨rfl, rfl⟩ | ⟨hm, -⟩
  · exact ⟨path, requested, hp, rfl, hn, hb⟩
  · exact h key c' hm

theorem faithful_of_cache_eq {st' : State} (h : Faithful cfg ws allowed st)
    (he : st'.cache = st.cache) : Faithful cfg ws allowed st' :=
  fun key c hm => h key c (he ▸ hm)

/-- A request with an admitted path keeps the cache faithful. -/
theorem Faithful.get (h : Faithful cfg ws allowed st) {path : String} (hp : allowed path)
    (requested : Option String) : Faithful cfg ws allowed (get cfg ws st path requested).2 := by
  have h₀ := h.prepare (cfg.profilesFor requested)
  rcases (get_cases st path requested).1 with he | ⟨c, hn, hb, he⟩
  · exact faithful_of_cache_eq h₀ he
  · exact faithful_of_cache_eq (h₀.put hp hn hb) he

/-- A request served from a faithful cache gets, if not its own fresh body, the fresh body of a
request with the same cache key, an admitted path, and no `nocompile`. -/
theorem get_body_of_faithful (h : Faithful cfg ws allowed st) {path : String}
    {requested : Option String} {c : Content} (hg : (get cfg ws st path requested).1 = .ok c) :
    freshBody cfg ws path requested = .ok c.body ∨
      ∃ path' requested', allowed path' ∧
        cacheKey path' (cfg.profilesFor requested') = cacheKey path (cfg.profilesFor requested) ∧
        noCompileProfile ∉ cfg.profilesFor requested ∧
        noCompileProfile ∉ cfg.profilesFor requested' ∧
        freshBody cfg ws path' requested' = .ok c.body := by
  rcases (get_cases st path requested).2 c hg with hb | ⟨hn, hl⟩
  · exact .inl hb
  · -- a hit: the entry is in the cache as it stood after the clearing
    obtain ⟨path', requested', hp, hk, hn', hb⟩ := h.prepare _ _ c (State.mem_of_lookup hl)
    exact .inr ⟨path', requested', hp, hk, hn, hn', hb⟩

end Faithful

/-- Without `nocompile`, the body a request gets afresh depends on its path only. -/
theorem freshBody_eq_of_noCompile {path : String} {requested requested' : Option String}
    (hn : noCompileProfile ∉ cfg.profilesFor requested)
    (hn' : noCompileProfile ∉ cfg.profilesFor requested') :
    freshBody cfg ws path requested = freshBody cfg ws path requested' := by
  rw [freshBody_eq, freshBody_eq]
  simp only [if_neg hn, if_neg hn']

/-- A path without `[` is what its cache key holds before the first `[`. -/
theorem takeWhile_cacheKey {path : String} (hp : '[' ∉ path.toList) (profiles : List String) :
    (cacheKey path profiles).toList.takeWhile (· ≠ '[') = path.toList := by
  have hall : ∀ a ∈ path.toList, decide (a ≠ '[') = true := fun a ha => by
    simp only [ne_eq, decide_eq_true_eq]
    rintro rfl
    exact hp ha
  simp only [cacheKey, String.toList_append, List.append_assoc]
  rw [List.takeWhile_append_of_pos hall]
  simp

/-- Two cache keys are equal only if their paths are, when neither path holds `[`. -/
theorem path_eq_of_cacheKey_eq {path path' : String} {profiles profiles' : List String}
    (hp : '[' ∉ path.toList) (hp' : '[' ∉ path'.toList)
    (hk : cacheKey path profiles = cacheKey path' profiles') : path = path' := by
  apply String.toList_inj.1
  rw [← takeWhile_cacheKey hp profiles, hk, takeWhile_cacheKey hp' profiles']

/-- The states a service reaches from an empty cache: it serves a request whose path `allowed`
admits, it empties its cache, or a request running beside others stores the body it made
afresh under its own key. Parallel requests interleave exactly such steps. -/
inductive Reachable (cfg : Config) (ws : Workspace) (allowed : String → Prop) : State → Prop
  | empty : Reachable cfg ws allowed {}
  | serve {st : State} {path : String} (requested : Option String) :
      Reachable cfg ws allowed st → allowed path →
      Reachable cfg ws allowed (get cfg ws st path requested).2
  | clear {st : State} : Reachable cfg ws allowed st → Reachable cfg ws allowed st.clear
  | store {st : State} {path : String} {requested : Option String} {c : Content} :
      Reachable cfg ws allowed st → allowed path →
      noCompileProfile ∉ cfg.profilesFor requested →
      freshBody cfg ws path requested = .ok c.body →
      Reachable cfg ws allowed (st.put (cacheKey path (cfg.profilesFor requested)) c)

section Reachable

variable {allowed : String → Prop} {st : State}

theorem Reachable.faithful (h : Reachable cfg ws allowed st) : Faithful cfg ws allowed st := by
  induction h with
  | empty => exact faithful_empty
  | serve requested _ hp ih => exact ih.get hp requested
  | clear _ _ => exact faithful_clear
  | store _ hp hn hb ih => exact ih.put hp hn hb

/-- A warm-up of admitted paths, one request after the other, reaches a reachable state. -/
theorem Reachable.warm (h : Reachable cfg ws allowed st) {paths : List String}
    (hp : ∀ p ∈ paths, allowed p) : Reachable cfg ws allowed (Service.warm cfg ws st paths).2 := by
  unfold Service.warm
  -- the fold carries the results so far beside the state
  suffices ∀ (acc : List (String × Except BundleError Content) × State),
      Reachable cfg ws allowed acc.2 → Reachable cfg ws allowed
        (paths.foldl (fun acc p => (acc.1 ++ [(p, (get cfg ws acc.2 p none).1)],
          (get cfg ws acc.2 p none).2)) acc).2 from this _ h
  induction paths with
  | nil => exact fun _ h => h
  | cons p ps ih =>
    intro acc hacc
    exact ih (fun q hq => hp q (List.mem_cons_of_mem _ hq)) _
      (hacc.serve none (hp p List.mem_cons_self))

/-- In every run from an empty cache, a request is served the body that a fresh service serves
to some admitted request with the same cache key. -/
theorem served_body_of_reachable (hr : Reachable cfg ws allowed st) {path : String}
    (hp : allowed path) {requested : Option String} {c : Content}
    (hg : (get cfg ws st path requested).1 = .ok c) :
    ∃ path' requested', allowed path' ∧
      cacheKey path' (cfg.profilesFor requested') = cacheKey path (cfg.profilesFor requested) ∧
      freshBody cfg ws path' requested' = .ok c.body := by
  rcases get_body_of_faithful hr.faithful hg with hb | ⟨path', requested', hp', hk, -, -, hb⟩
  · exact ⟨path, requested, hp, rfl, hb⟩
  · exact ⟨path', requested', hp', hk, hb⟩

/-- In a run where no request path holds `[`, every request is served exactly what a service
with an empty cache serves it. -/
theorem served_body_eq_fresh (hr : Reachable cfg ws (fun p => '[' ∉ p.toList) st)
    {path : String} (hp : '[' ∉ path.toList) {requested : Option String} {c : Content}
    (hg : (get cfg ws st path requested).1 = .ok c) :
    freshBody cfg ws path requested = .ok c.body := by
  rcases get_body_of_faithful hr.faithful hg with hb | ⟨path', requested', hp', hk, hn, hn', hb⟩
  · exact hb
  · -- a hit under the key of another request: it has the same path, so the same fresh body
    obtain rfl := path_eq_of_cacheKey_eq hp' hp hk
    rw [freshBody_eq_of_noCompile hn hn', hb]

end Reachable

/-- A workspace of one empty module. -/
def singleModuleWorkspace : Workspace :=
  ⟨[(["a"], .file "".toUTF8)], none⟩

/-- Asking twice for the module of a one-module workspace: the second answer comes from the
cache and is the body a fresh service serves. -/
theorem repeated_request_served_fresh :
    ∃ c, (get {base := ""} singleModuleWorkspace
        (get {base := ""} singleModuleWorkspace {} "a" none).2 "a" none).1 = .ok c ∧
      freshBody {base := ""} singleModuleWorkspace "a" none = .ok c.body := by
  have hp : requestPath "a" = .ok ⟨false, [.down "a"]⟩ := by cbv
  obtain ⟨reg, hs, names, hn⟩ : ∃ reg,
      (Scanner.new singleModuleWorkspace "" .textual).scan "a" = .ok reg ∧
        ∃ names, reg.registrationNames = .ok names := ⟨_, by cbv, _, by cbv⟩
  have hb : ∃ bundle, Bundle.make singleModuleWorkspace {} "" "a" = .ok bundle := by
    have he : String.ofList ("a".toList.dropWhile (· = '/')) = "a" := by decide
    delta Bundle.make
    rw [he, hs]
    cases hr : Bundle.render {} reg with
    | error e => simp [Bundle.render, hn] at hr
    | ok bundle => exact ⟨bundle, hr⟩
  obtain ⟨bundle, hb⟩ := hb
  have hnone : ∀ x : String, x ∉ ({base := ""} : Config).profilesFor none := by
    intro x hx
    cases hx
  have hsnd := congrArg Prod.snd
    (get_of_make hp (hnone _) (hnone _) (hnone _) (show ({} : State).lookup _ = none from rfl) hb)
  have hr : Reachable {base := ""} singleModuleWorkspace (fun p => '[' ∉ p.toList)
      (get {base := ""} singleModuleWorkspace {} "a" none).2 :=
    .serve none .empty (by decide)
  rw [hsnd] at hr ⊢
  -- the second request finds the body the first one stored
  have hg : (get {base := ""} singleModuleWorkspace
      ((({} : State).fresh (postProcess bundle)).2.put
        (cacheKey "a" (({base := ""} : Config).profilesFor none))
        (({} : State).fresh (postProcess bundle)).1) "a" none).1 =
      .ok (({} : State).fresh (postProcess bundle)).1 :=
    congrArg Prod.fst (get_of_lookup hp (hnone _) (hnone _) (hnone _) State.lookup_put_self)
  exact ⟨_, hg, served_body_eq_fresh hr (by decide) hg⟩

end

end ModuleBundler.Service
