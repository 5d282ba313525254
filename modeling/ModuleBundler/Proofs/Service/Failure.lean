import ModuleBundler.Proofs.Service.Cache

/-!
Failures leave what a caller sees as it was.

Appending a bundle to a buffer either adds the whole bundle of the scanned registry or, on a
failure, keeps the buffer as it was. A request to the content service changes its cache only
by storing the content it is served, under its own key, and never when it is served raw: a
request that fails, or that serves a file as it is under `nocompile`, leaves the cache as it
stood once `clearcache`, if asked for, had emptied it. Over a whole run the cache therefore
holds only bodies made afresh by a successful bundling.

Main statement: `failures_leave_state_intact`.
-/

namespace ModuleBundler

namespace Bundle

/-- Appending either adds the bundle rendered from the scanned registry or keeps the buffer
beside the failure. -/
theorem appendTo_cases (buffer : String) (ws : Workspace) (opts : Options) (base entry : String) :
    (∃ reg bundle,
        (Scanner.new ws base opts.mode).scan (String.ofList (entry.toList.dropWhile (· = '/'))) =
          .ok reg ∧ render opts reg = .ok bundle ∧
        appendTo buffer ws opts base entry = (buffer ++ bundle, none)) ∨
      ∃ e, make ws opts base entry = .error e ∧ appendTo buffer ws opts base entry = (buffer, some e) := by
  unfold appendTo make
  cases hs : (Scanner.new ws base opts.mode).scan
      (String.ofList (entry.toList.dropWhile (· = '/'))) with
  | error e => exact .inr ⟨e, rfl, rfl⟩
  | ok reg =>
    dsimp only
    cases hr : render opts reg with
    | error e => exact .inr ⟨e, rfl, rfl⟩
    | ok bundle => exact .inl ⟨reg, bundle, rfl, hr, rfl⟩

end Bundle

namespace Service

variable {cfg : Config} {ws : Workspace}

/-- What a request does to the cache: with `st₀` the state after its `clearcache`, if any, the
cache is left as in `st₀`, or the request succeeds, is not served raw, and its content is
stored under its key. -/
theorem get_cache_cases (st : State) (path : String) (requested : Option String) :
    let profiles := cfg.profilesFor requested
    let st₀ := if clearCacheProfile ∈ profiles then st.clear else st
    (get cfg ws st path requested).2.cache = st₀.cache ∨
      ∃ c, (get cfg ws st path requested).1 = .ok c ∧ noCompileProfile ∉ profiles ∧
        (get cfg ws st path requested).2.cache = (st₀.put (cacheKey path profiles) c).cache := by
  intro profiles st₀
  unfold get
  cases requestPath path with
  | error e => exact .inl rfl
  | ok rel =>
    dsimp only
    by_cases hn : noCompileProfile ∈ profiles
    · -- served raw: a fresh object, but nothing stored
      simp only [profiles] at hn
      simp only [hn, if_true]
      cases ws.readText (joinText cfg.base rel.toString) with
      | error f => exact .inl rfl
      | ok raw => exact .inl rfl
    · simp only [profiles] at hn
      simp only [hn, if_false]
      -- what the request finds under its key, when it may look
      cases hl : (if noCacheProfile ∈ cfg.profilesFor requested then none
          else st₀.lookup (cacheKey path profiles)) with
      | some hit => exact .inl rfl
      | none =>
        cases Bundle.make ws cfg.options cfg.base rel.toString with
        | error e => exact .inl rfl
        | ok bundle => exact .inr ⟨_, rfl, hn, rfl⟩

/-- A request that fails, or that is served raw, leaves the cache as its `clearcache`, if any,
left it. -/
theorem get_cache_of_failed_or_raw (st : State) (path : String) (requested : Option String)
    (h : (∃ e, (get cfg ws st path requested).1 = .error e) ∨
      noCompileProfile ∈ cfg.profilesFor requested) :
    (get cfg ws st path requested).2.cache =
      if clearCacheProfile ∈ cfg.profilesFor requested then [] else st.cache := by
  rcases get_cache_cases st path requested with he | ⟨c, hok, hn, -⟩
  · rw [he]
    split <;> rfl
  · -- a stored content was served, and not raw
    rcases h with ⟨e, herr⟩ | hraw
    · rw [hok] at herr
      cases herr
    · exact absurd hraw hn

/-- Failures leave caller-visible state intact. Appending a bundle either adds the bundle of the
scanned registry to the buffer or fails and keeps the buffer; a request that fails or is served
raw leaves the cache as it was, but emptied when its profiles hold `clearcache`; and in every
run from an empty cache, each cached content is the body that a successful bundling made afresh
for a request with its key that was not served raw. -/
theorem failures_leave_state_intact :
    (∀ (buffer : String) (ws : Workspace) (opts : Bundle.Options) (base entry : String),
      (∃ reg bundle,
          (Scanner.new ws base opts.mode).scan (String.ofList (entry.toList.dropWhile (· = '/'))) =
            .ok reg ∧ Bundle.render opts reg = .ok bundle ∧
          Bundle.appendTo buffer ws opts base entry = (buffer ++ bundle, none)) ∨
        ∃ e, Bundle.make ws opts base entry = .error e ∧
          Bundle.appendTo buffer ws opts base entry = (buffer, some e)) ∧
    (∀ (cfg : Config) (ws : Workspace) (st : State) (path : String) (requested : Option String),
      (∃ e, (get cfg ws st path requested).1 = .error e) ∨
        noCompileProfile ∈ cfg.profilesFor requested →
      (get cfg ws st path requested).2.cache =
        if clearCacheProfile ∈ cfg.profilesFor requested then [] else st.cache) ∧
    (∀ (cfg : Config) (ws : Workspace) (st : State), Reachable cfg ws (fun _ => True) st →
      ∀ key c, (key, c) ∈ st.cache → ∃ path requested,
        cacheKey path (cfg.profilesFor requested) = key ∧
        noCompileProfile ∉ cfg.profilesFor requested ∧
        freshBody cfg ws path requested = .ok c.body) := by
  refine ⟨Bundle.appendTo_cases, fun cfg ws st path requested h =>
    get_cache_of_failed_or_raw st path requested h, ?_⟩
  intro cfg ws st hr key c hm
  obtain ⟨path, requested, -, hk, hn, hb⟩ := hr.faithful key c hm
  exact ⟨path, requested, hk, hn, hb⟩

end Service

end ModuleBundler
