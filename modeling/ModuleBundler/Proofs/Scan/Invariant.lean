import ModuleBundler.Scan
import Mathlib

/-!
What a scan keeps true of its registry while it runs.

A scan reads each key once, from one file; a function `src` names that file for every key.
`Scanner.Inv` says that keys are distinct, that each module is the parse of its file, that a
finished key has every import resolved to a registered key which records the specifier, and
that every recorded specifier comes from such an import. A visit keeps the invariant, finishes
every key it registers, and reaches each of them from the key it started at (`visit_spec`).
-/

namespace ModuleBundler

namespace Registry

/-- `reg'` keeps all of `reg`: its modules come first and no recorded specifier is lost. -/
structure Extends (reg reg' : Registry) : Prop where
  modules : reg.modules <+: reg'.modules
  aliases : ∀ k s, s ∈ reg.aliasesOf k → s ∈ reg'.aliasesOf k

/-- The keys finished between `reg` and `reg'` are exactly those registered in between. -/
def Finishes (reg reg' : Registry) : Prop :=
  ∃ new fin, reg'.modules = reg.modules ++ new ∧ reg'.order = reg.order ++ fin ∧
    fin.Perm (new.map (·.1))

variable {reg reg' reg'' : Registry}

theorem Extends.refl (reg : Registry) : reg.Extends reg :=
  ⟨List.prefix_refl _, fun _ _ h => h⟩

theorem Extends.trans (h : reg.Extends reg') (h' : reg'.Extends reg'') : reg.Extends reg'' :=
  ⟨h.modules.trans h'.modules, fun k s hs => h'.aliases k s (h.aliases k s hs)⟩

theorem Extends.get? (h : reg.Extends reg') {k : String} {m : Module} (hm : reg.get? k = some m) :
    reg'.get? k = some m :=
  get?_mono h.modules hm

theorem Extends.has (h : reg.Extends reg') {k : String} (hk : reg.has k) : reg'.has k :=
  has_mono h.modules hk

theorem extends_insert (reg : Registry) (k : String) (m : Module) : reg.Extends (reg.insert k m) :=
  ⟨⟨_, rfl⟩, fun _ _ h => h⟩

theorem extends_finish (reg : Registry) (k : String) : reg.Extends (reg.finish k) :=
  ⟨List.prefix_refl _, fun _ _ h => h⟩

theorem extends_addAlias (reg : Registry) (k s : String) : reg.Extends (reg.addAlias k s) :=
  ⟨by simp, fun _ _ h => mem_aliasesOf_addAlias.2 (.inr h)⟩

theorem Finishes.refl (reg : Registry) : reg.Finishes reg :=
  ⟨[], [], by simp, by simp, by simp⟩

theorem Finishes.trans (h : reg.Finishes reg') (h' : reg'.Finishes reg'') : reg.Finishes reg'' := by
  obtain ⟨new, fin, hm, ho, hp⟩ := h
  obtain ⟨new', fin', hm', ho', hp'⟩ := h'
  refine ⟨new ++ new', fin ++ fin', by rw [hm', hm, List.append_assoc],
    by rw [ho', ho, List.append_assoc], ?_⟩
  rw [List.map_append]
  exact hp.append hp'

theorem finishes_addAlias (reg : Registry) (k s : String) : reg.Finishes (reg.addAlias k s) :=
  ⟨[], [], by simp, by simp, by simp⟩

/-- A key under way after a run that finishes all it registers was under way before it. -/
theorem Finishes.open_of_open (h : reg.Finishes reg') {o : String} (ho : reg'.has o)
    (hno : o ∉ reg'.order) : reg.has o ∧ o ∉ reg.order := by
  obtain ⟨new, fin, hm, ho', hp⟩ := h
  rw [ho', List.mem_append, not_or] at hno
  refine ⟨?_, hno.1⟩
  rw [has_iff, hm, List.map_append, List.mem_append] at ho
  rcases ho with ho | ho
  · exact has_iff.2 ho
  · exact absurd (hp.mem_iff.2 ho) hno.2

end Registry

namespace Scanner

open Registry

variable (sc : Scanner)

/-- Module `m` is the parse, under key `k`, of the text of file `p`, whose key is `k`. -/
def ReadAs (k : String) (p : Path) (m : Module) : Prop :=
  sc.keyFor p = k ∧ ∃ text, sc.workspace.read p = .ok text ∧ Module.parse k text sc.mode = .ok m

/-- Specifier `s` of the module under `k`, read from `src k`, resolves to a file with key `k'`. -/
def Imports (reg : Registry) (src : String → Path) (k s k' : String) : Prop :=
  ∃ m q, reg.get? k = some m ∧ s ∈ m.specifiers ∧ sc.resolve (src k) k s = .ok q ∧
    sc.keyFor q = k'

/-- `b` is reachable from `a` along imports. -/
def Reaches (reg : Registry) (src : String → Path) (a b : String) : Prop :=
  Relation.ReflTransGen (fun k k' => ∃ s, sc.Imports reg src k s k') a b

/-- Every specifier of the module under `k` resolves to a registered key that records it. -/
def Closed (reg : Registry) (src : String → Path) (k : String) : Prop :=
  ∀ m, reg.get? k = some m → ∀ s ∈ m.specifiers, ∃ q, sc.resolve (src k) k s = .ok q ∧
    reg.has (sc.keyFor q) ∧ s ∈ reg.aliasesOf (sc.keyFor q)

/-- `b` is reachable from `a` along imports through keys none of which reaches `a` again: the
path leaves the import cycle of `a` at its first step and never comes back to it. -/
def ReachesOutside (reg : Registry) (src : String → Path) (a b : String) : Prop :=
  Relation.TransGen (fun k k' => (∃ s, sc.Imports reg src k s k') ∧ ¬ sc.Reaches reg src k' a) a b

/-- Post-order: every finished key comes after every key it reaches outside its import cycle. -/
def Ordered (reg : Registry) (src : String → Path) : Prop :=
  ∀ a ∈ reg.order, ∀ b, sc.ReachesOutside reg src a b → List.Sublist [b, a] reg.order

/-- Every key registered and not yet finished, that is every key whose visit is under way,
reaches `k` along imports. -/
def OpenReach (reg : Registry) (src : String → Path) (k : String) : Prop :=
  ∀ o, reg.has o → o ∉ reg.order → sc.Reaches reg src o k

/-- The invariant of a scan's registry, with `src` the file each key was read from. -/
structure Inv (reg : Registry) (src : String → Path) : Prop where
  nodup : (reg.modules.map (·.1)).Nodup
  read : ∀ k m, reg.get? k = some m → sc.ReadAs k (src k) m
  finished : ∀ k ∈ reg.order, reg.has k ∧ sc.Closed reg src k
  order_nodup : reg.order.Nodup
  alias_sound : ∀ k' s, s ∈ reg.aliasesOf k' → ∃ k, sc.Imports reg src k s k'
  alias_keys : ∀ k' ∈ reg.aliases.map (·.1), reg.has k'
  ordered : sc.Ordered reg src

variable {sc} {reg reg' : Registry} {src src' : String → Path}

/-- `src'` names the same files as `src` on the keys of `reg`. -/
def Agrees (reg : Registry) (src src' : String → Path) : Prop :=
  ∀ k, reg.has k → src' k = src k

theorem Agrees.trans {src'' : String → Path} (h : Agrees reg src src') (he : reg.Extends reg')
    (h' : Agrees reg' src' src'') : Agrees reg src src'' :=
  fun k hk => (h' k (he.has hk)).trans (h k hk)

theorem agrees_update {k : String} {p : Path} (hk : ¬ reg.has k) :
    Agrees reg src (Function.update src k p) := by
  intro k' hk'
  have hne : k' ≠ k := by rintro rfl; exact hk hk'
  simp [hne]

theorem Imports.mono {k s k' : String} (h : sc.Imports reg src k s k') (he : reg.Extends reg')
    (ha : Agrees reg src src') : sc.Imports reg' src' k s k' := by
  obtain ⟨m, q, hm, hs, hq, hk⟩ := h
  exact ⟨m, q, he.get? hm, hs, by rw [ha k (has_of_get? hm)]; exact hq, hk⟩

theorem Reaches.mono {a b : String} (h : sc.Reaches reg src a b) (he : reg.Extends reg')
    (ha : Agrees reg src src') : sc.Reaches reg' src' a b :=
  Relation.ReflTransGen.mono (fun _ _ ⟨s, hi⟩ => ⟨s, hi.mono he ha⟩) _ _ h

theorem OpenReach.mono {k : String} (h : sc.OpenReach reg src k) (hf : reg.Finishes reg')
    (he : reg.Extends reg') (ha : Agrees reg src src') : sc.OpenReach reg' src' k :=
  fun o ho hno =>
    let ⟨ho₀, hno₀⟩ := hf.open_of_open ho hno
    (h o ho₀ hno₀).mono he ha

theorem Closed.mono {k : String} (h : sc.Closed reg src k) (hk : reg.has k)
    (he : reg.Extends reg') (ha : Agrees reg src src') : sc.Closed reg' src' k := by
  intro m hm s hs
  obtain ⟨m₀, hm₀⟩ := exists_get?_of_has hk
  have hmm : m₀ = m := Option.some.inj ((he.get? hm₀).symm.trans hm)
  subst hmm
  obtain ⟨q, hq, hh, hal⟩ := h m₀ hm₀ s hs
  exact ⟨q, by rw [ha k hk]; exact hq, he.has hh, he.aliases _ _ hal⟩

/-- An import of a registered key, read back in a smaller registry that already holds it. -/
theorem Imports.back {k s k' : String} (h : sc.Imports reg' src' k s k') (hk : reg.has k)
    (he : reg.Extends reg') (ha : Agrees reg src src') : sc.Imports reg src k s k' := by
  obtain ⟨m, q, hm, hs, hq, hk'⟩ := h
  obtain ⟨m₀, hm₀⟩ := exists_get?_of_has hk
  have hmm : m₀ = m := Option.some.inj ((he.get? hm₀).symm.trans hm)
  subst hmm
  exact ⟨m₀, q, hm₀, hs, by rw [← ha k hk]; exact hq, hk'⟩

/-- The imports of a closed key all lead to registered keys. -/
theorem Closed.has_of_imports {k s k' : String} (h : sc.Closed reg src k)
    (hi : sc.Imports reg src k s k') : reg.has k' := by
  obtain ⟨m, q, hm, hs, hq, rfl⟩ := hi
  obtain ⟨q', hq', hh, -⟩ := h m hm s hs
  rw [hq] at hq'
  cases hq'
  exact hh

/-- A path outside the import cycle of a finished key, in a larger registry, already lies in
the smaller one: its keys are finished before that key, so their imports were all there. -/
theorem ReachesOutside.back (h : sc.Ordered reg src) (hf : ∀ k ∈ reg.order, reg.has k)
    (he : reg.Extends reg') (ha : Agrees reg src src') {a b : String} (haf : a ∈ reg.order)
    (hr : sc.ReachesOutside reg' src' a b) : sc.ReachesOutside reg src a b := by
  have hback : ∀ {k k' : String}, reg.has k →
      ((∃ s, sc.Imports reg' src' k s k') ∧ ¬ sc.Reaches reg' src' k' a) →
      (∃ s, sc.Imports reg src k s k') ∧ ¬ sc.Reaches reg src k' a :=
    fun hk ⟨⟨s, hi⟩, hn⟩ => ⟨⟨s, hi.back hk he ha⟩, fun hr => hn (hr.mono he ha)⟩
  -- by induction along the path: each key reached so far is finished before `a`
  induction hr with
  | single hstep => exact .single (hback (hf a haf) hstep)
  | tail _ hstep ih =>
    have hy := (h a haf _ ih).subset List.mem_cons_self
    exact .tail ih (hback (hf _ hy) hstep)

/-- Post-order survives growth that only appends to the order. -/
theorem Ordered.mono (h : sc.Ordered reg src) (hf : ∀ k ∈ reg.order, reg.has k)
    (he : reg.Extends reg') (ha : Agrees reg src src') (ho : reg.order <+: reg'.order) :
    ∀ a ∈ reg.order, ∀ b, sc.ReachesOutside reg' src' a b → List.Sublist [b, a] reg'.order :=
  fun a haf b hr => (h a haf b (hr.back h hf he ha haf)).trans ho.sublist

/-- When every key under way reaches `k`, whatever `k` reaches outside its import cycle is
finished already: such a path meets no key under way, and a finished key's imports are all
registered. -/
theorem mem_order_of_reachesOutside (hfin : ∀ k ∈ reg.order, reg.has k ∧ sc.Closed reg src k)
    {k : String} (hc : sc.Closed reg src k) (hopen : sc.OpenReach reg src k) {b : String}
    (hr : sc.ReachesOutside reg src k b) : b ∈ reg.order := by
  have hstep : ∀ {x y : String}, sc.Closed reg src x →
      ((∃ s, sc.Imports reg src x s y) ∧ ¬ sc.Reaches reg src y k) → y ∈ reg.order := by
    intro x y hcx ⟨⟨s, hi⟩, hn⟩
    by_contra hy
    exact hn (hopen y (hcx.has_of_imports hi) hy)
  induction hr with
  | single hs => exact hstep hc hs
  | tail _ hs ih => exact hstep (hfin _ ih).2 hs

theorem inv_empty (src : String → Path) : sc.Inv {} src where
  nodup := List.nodup_nil
  read _ _ h := by simp [get?] at h
  finished _ h := by simp at h
  order_nodup := List.nodup_nil
  alias_sound _ _ h := by simp [aliasesOf] at h
  alias_keys _ h := by simp at h
  ordered _ h := by simp at h

/-- Registering a new key, read from `p`, keeps the invariant when `src` learns `p`. -/
theorem Inv.insert {k : String} {p : Path} {m : Module} (h : sc.Inv reg src) (hk : ¬ reg.has k)
    (hr : sc.ReadAs k p m) : sc.Inv (reg.insert k m) (Function.update src k p) := by
  have ha : Agrees reg src (Function.update src k p) := agrees_update hk
  have he := extends_insert reg k m
  refine ⟨?_, ?_, ?_, h.order_nodup, ?_, ?_, ?_⟩
  · simp only [Registry.insert, List.map_append, List.map_cons, List.map_nil]
    exact List.nodup_append.2 ⟨h.nodup, by simp,
      fun x hx y hy => by rintro rfl; simp at hy; subst hy; exact hk (has_iff.2 hx)⟩
  · intro k' m' hm'
    by_cases hkk : k' = k
    · subst hkk
      rw [get?_insert_self hk] at hm'
      cases hm'
      simpa using hr
    · have hold : reg.has k' := by
        have := has_of_get? hm'
        exact (has_insert.1 this).resolve_right hkk
      obtain ⟨m₀, hm₀⟩ := exists_get?_of_has hold
      have := Option.some.inj ((he.get? hm₀).symm.trans hm')
      subst this
      rw [ha k' hold]
      exact h.read k' m₀ hm₀
  · intro k' hk'
    obtain ⟨hh, hc⟩ := h.finished k' hk'
    exact ⟨he.has hh, hc.mono hh he ha⟩
  · intro k' s hs
    obtain ⟨k₀, hi⟩ := h.alias_sound k' s hs
    exact ⟨k₀, hi.mono he ha⟩
  · intro k' hk'
    exact he.has (h.alias_keys k' hk')
  · exact h.ordered.mono (fun k' hk' => (h.finished k' hk').1) he ha (List.prefix_refl _)

/-- Recording a specifier that one of the registered modules imports keeps the invariant. -/
theorem Inv.addAlias {k k' s : String} (h : sc.Inv reg src) (hk' : reg.has k')
    (hi : sc.Imports reg src k s k') : sc.Inv (reg.addAlias k' s) src := by
  have he := extends_addAlias reg k' s
  have ha : Agrees reg src src := fun _ _ => rfl
  refine ⟨by simpa using h.nodup, fun k m hm => h.read k m (by simpa using hm), ?_,
    by simpa using h.order_nodup, ?_, ?_, ?_⟩
  · intro k₀ hk₀
    rw [order_addAlias] at hk₀
    obtain ⟨hh, hc⟩ := h.finished k₀ hk₀
    exact ⟨he.has hh, hc.mono hh he ha⟩
  · intro k₀ t ht
    rcases mem_aliasesOf_addAlias.1 ht with ⟨rfl, rfl⟩ | ht
    · exact ⟨k, hi.mono he ha⟩
    · obtain ⟨k₁, hi₁⟩ := h.alias_sound k₀ t ht
      exact ⟨k₁, hi₁.mono he ha⟩
  · intro k₀ hk₀
    rcases mem_aliases_addAlias.1 hk₀ with hk₀ | rfl
    · exact he.has (h.alias_keys k₀ hk₀)
    · exact he.has hk'
  · intro a haf b hr
    rw [order_addAlias] at haf
    exact h.ordered.mono (fun k₀ hk₀ => (h.finished k₀ hk₀).1) he ha (by simp) a haf b hr

/-- Finishing a registered key whose imports are all resolved keeps the invariant, when every
key under way reaches it. -/
theorem Inv.finish {k : String} (h : sc.Inv reg src) (hk : reg.has k) (hn : k ∉ reg.order)
    (hc : sc.Closed reg src k) (hopen : sc.OpenReach reg src k) : sc.Inv (reg.finish k) src := by
  have he := extends_finish reg k
  have ha : Agrees reg src src := fun _ _ => rfl
  refine ⟨h.nodup, fun k m hm => h.read k m hm, ?_, ?_, h.alias_sound, h.alias_keys, ?_⟩
  · intro k₀ hk₀
    rcases List.mem_append.1 hk₀ with hk₀ | hk₀
    · obtain ⟨hh, hc₀⟩ := h.finished k₀ hk₀
      exact ⟨hh, hc₀.mono hh he ha⟩
    · simp only [List.mem_singleton] at hk₀
      subst hk₀
      exact ⟨hk, hc.mono hk he ha⟩
  · exact List.nodup_append.2 ⟨h.order_nodup, by simp,
      fun a ha b hb => by simp at hb; subst hb; rintro rfl; exact hn ha⟩
  · intro a haf b hr
    rcases List.mem_append.1 haf with haf | haf
    · exact h.ordered.mono (fun k₀ hk₀ => (h.finished k₀ hk₀).1) he ha ⟨[k], rfl⟩ a haf b hr
    · -- the key finished now comes after all it reaches outside its cycle
      simp only [List.mem_singleton] at haf
      subst haf
      have hb : b ∈ reg.order := mem_order_of_reachesOutside h.finished hc hopen hr
      exact (List.singleton_sublist.2 hb).append (List.Sublist.refl [a])

/-- What a visit of `path` from `reg` gives: `key` is the key of `path` and is registered,
everything registered on the way is finished, `src` is kept on old keys, the invariant holds,
every new key is reachable from `key`, and `key`, when new, finished last. -/
structure Visited (reg : Registry) (src : String → Path) (path : Path) (key : String)
    (reg' : Registry) (src' : String → Path) : Prop where
  key_eq : key = sc.keyFor path
  has_key : reg'.has key
  grows : reg.Extends reg'
  finishes : reg.Finishes reg'
  agree : Agrees reg src src'
  inv : sc.Inv reg' src'
  reach : ∀ k, reg'.has k → ¬ reg.has k → sc.Reaches reg' src' key k
  last : ¬ reg.has key → reg'.order.getLast? = some key

/-- What following the specifiers `ss` of the module under `key`, read from `path`, gives:
each of them resolved, registered and recorded, and everything new reachable from `key`. -/
structure Explored (path : Path) (key : String) (ss : List String) (reg : Registry)
    (src : String → Path) (reg' : Registry) (src' : String → Path) : Prop where
  grows : reg.Extends reg'
  finishes : reg.Finishes reg'
  agree : Agrees reg src src'
  inv : sc.Inv reg' src'
  resolved : ∀ s ∈ ss, ∃ q, sc.resolve path key s = .ok q ∧ reg'.has (sc.keyFor q) ∧
    s ∈ reg'.aliasesOf (sc.keyFor q)
  reach : ∀ k, reg'.has k → ¬ reg.has k → sc.Reaches reg' src' key k
  open_reach : sc.OpenReach reg' src' key

theorem foldlM_cons_eq_ok {α β ε : Type} {f : β → α → Except ε β} {b b' : β} {a : α}
    {l : List α} (h : (a :: l).foldlM f b = .ok b') :
    ∃ c, f b a = .ok c ∧ l.foldlM f c = .ok b' := by
  rw [List.foldlM_cons] at h
  cases hf : f b a with
  | error e => rw [hf] at h; cases h
  | ok c => rw [hf] at h; exact ⟨c, rfl, h⟩

/-- Following the imports of one module, when each step visits one import at depth `d` and
records its specifier. -/
theorem explore {d : Nat} {path : Path} {key : String} {m : Module}
    (ih : ∀ p r src k r', sc.Inv r src → sc.OpenReach r src (sc.keyFor p) →
      sc.visit d p r = .ok (k, r') → ∃ src', sc.Visited r src p k r' src')
    {step : Registry → String → Except BundleError Registry}
    (hstep : ∀ r s r', step r s = .ok r' → ∃ q k r'', sc.resolve path key s = .ok q ∧
      sc.visit d q r = .ok (k, r'') ∧ r' = r''.addAlias k s) (ss : List String) :
    ∀ (reg : Registry) (src : String → Path) (reg' : Registry), sc.Inv reg src →
      sc.OpenReach reg src key → reg.get? key = some m → src key = path →
      (∀ s ∈ ss, s ∈ m.specifiers) →
      ss.foldlM step reg = .ok reg' → ∃ src', sc.Explored path key ss reg src reg' src' := by
  induction ss with
  | nil =>
    intro reg src reg' hi hopen _ _ _ h
    cases h
    exact ⟨src, Extends.refl _, Finishes.refl _, fun _ _ => rfl, hi, by simp,
      fun _ hk hnk => absurd hk hnk, hopen⟩
  | cons s ss ih' =>
    intro reg src reg' hi hopen hm hp hss h
    obtain ⟨r₁, hs₁, hrest⟩ := foldlM_cons_eq_ok h
    obtain ⟨q, child, r'', hq, hv, rfl⟩ := hstep reg s r₁ hs₁
    -- every key under way reaches `key`, which imports the file visited now
    have hedge : sc.Imports reg src key s (sc.keyFor q) :=
      ⟨m, q, hm, hss s List.mem_cons_self, by rw [hp]; exact hq, rfl⟩
    obtain ⟨src'', V⟩ := ih q reg src child r'' hi
      (fun o ho hno => (hopen o ho hno).tail ⟨s, hedge⟩) hv
    have hkey : reg.has key := has_of_get? hm
    have hm'' : r''.get? key = some m := V.grows.get? hm
    have hsrc : src'' key = path := (V.agree key hkey).trans hp
    -- the edge from `key` to the visited child, which the new specifier records
    have himp : sc.Imports r'' src'' key s child :=
      ⟨m, q, hm'', hss s List.mem_cons_self, by rw [hsrc]; exact hq, V.key_eq.symm⟩
    have hopen'' : sc.OpenReach (r''.addAlias child s) src'' key :=
      ((hopen.mono V.finishes V.grows V.agree).mono (finishes_addAlias _ _ _)
        (extends_addAlias _ _ _) (fun _ _ => rfl))
    obtain ⟨src', E⟩ := ih' (r''.addAlias child s) src'' reg' (V.inv.addAlias V.has_key himp)
      hopen'' (by simpa using hm'') hsrc (fun t ht => hss t (List.mem_cons_of_mem _ ht)) hrest
    have he₁ : r''.Extends reg' := (extends_addAlias _ _ _).trans E.grows
    have ha₁ : Agrees r'' src'' src' := fun k hk => E.agree k (by simpa using hk)
    refine ⟨src', V.grows.trans he₁, (V.finishes.trans (finishes_addAlias _ _ _)).trans E.finishes,
      V.agree.trans V.grows ha₁, E.inv, ?_, ?_, E.open_reach⟩
    · intro t ht
      rcases List.mem_cons.1 ht with rfl | ht
      · refine ⟨q, hq, ?_, ?_⟩
        · rw [← V.key_eq]; exact he₁.has V.has_key
        · rw [← V.key_eq]; exact E.grows.aliases _ _ mem_aliasesOf_addAlias_self
      · exact E.resolved t ht
    · intro k hk hnk
      by_cases h₁ : r''.has k
      · have hc : sc.Reaches r'' src'' key k :=
          (Relation.ReflTransGen.single ⟨s, himp⟩).trans (V.reach k h₁ hnk)
        exact hc.mono he₁ ha₁
      · exact E.reach k hk (by simpa using h₁)

/-- A visit of a key that is already registered changes nothing. -/
theorem visited_of_has {path : Path} (hi : sc.Inv reg src) (hk : reg.has (sc.keyFor path)) :
    sc.Visited reg src path (sc.keyFor path) reg src :=
  ⟨rfl, hk, Extends.refl _, Finishes.refl _, fun _ _ => rfl, hi, fun _ hk hnk => absurd hk hnk,
    fun hn => absurd hk hn⟩

/-- The key of a fresh visit is finished by no visit below it. -/
theorem not_mem_order {k : String} {m : Module} (hi : sc.Inv reg src) (hk : ¬ reg.has k)
    (hf : (reg.insert k m).Finishes reg') (hn : (reg'.modules.map (·.1)).Nodup) :
    k ∉ reg'.order := by
  obtain ⟨new, fin, hm, ho, hp⟩ := hf
  rw [ho]
  intro hmem
  rcases List.mem_append.1 hmem with h | h
  · exact hk (hi.finished k h).1
  · have hnew : k ∈ new.map (·.1) := hp.subset h
    rw [hm] at hn
    simp only [Registry.insert, List.map_append, List.map_cons, List.append_assoc,
      List.singleton_append] at hn
    exact (List.nodup_cons.1 (List.nodup_append.1 hn).2.1).1 hnew

theorem visit_spec : ∀ (d : Nat) (path : Path) (reg : Registry) (src : String → Path)
    (key : String) (reg' : Registry), sc.Inv reg src → sc.OpenReach reg src (sc.keyFor path) →
    sc.visit d path reg = .ok (key, reg') → ∃ src', sc.Visited reg src path key reg' src'
  | 0, _, _, _, _, _, _, _, h => by simp [visit] at h
  | d + 1, path, reg, src, key, reg', hi, hopen, h => by
    simp only [visit] at h
    split at h
    · rename_i hk
      cases h
      exact ⟨src, visited_of_has hi hk⟩
    · rename_i hk
      split at h
      · cases h
      · rename_i source hread
        split at h
        · cases h
        · rename_i m hparse
          split at h
          · cases h
          · rename_i r' hfold
            cases h
            have hr : sc.ReadAs (sc.keyFor path) path m := ⟨rfl, source, hread, hparse⟩
            -- under way now: the keys under way before, which reach `path`, and `path` itself
            have hopen₀ : sc.OpenReach (reg.insert (sc.keyFor path) m)
                (Function.update src (sc.keyFor path) path) (sc.keyFor path) := by
              intro o ho hno
              by_cases hok : o = sc.keyFor path
              · subst hok
                exact Relation.ReflTransGen.refl
              · exact (hopen o ((has_insert.1 ho).resolve_right hok) hno).mono
                  (extends_insert _ _ _) (agrees_update hk)
            -- each step of the fold resolves one specifier, visits it and records it
            obtain ⟨src', E⟩ := explore (visit_spec d) (fun r s r'' hs => by
                split at hs
                · cases hs
                · rename_i q hq
                  split at hs
                  · cases hs
                  · rename_i k r₀ hv
                    cases hs
                    exact ⟨q, k, r₀, hq, hv, rfl⟩)
              m.specifiers _ _ r' (hi.insert hk hr) hopen₀ (get?_insert_self hk)
              (by simp) (fun _ h => h) hfold
            have hkey : r'.has (sc.keyFor path) :=
              E.grows.has (has_insert.2 (.inr rfl))
            have hsrc : src' (sc.keyFor path) = path :=
              (E.agree _ (has_insert.2 (.inr rfl))).trans (by simp)
            have hclosed : sc.Closed r' src' (sc.keyFor path) := by
              intro m' hm' s hs
              have := Option.some.inj ((E.grows.get? (get?_insert_self hk)).symm.trans hm')
              subst this
              rw [hsrc]
              exact E.resolved s hs
            have hins := extends_insert reg (sc.keyFor path) m
            refine ⟨src', rfl, hkey, (hins.trans E.grows).trans (extends_finish _ _), ?_,
              ?_, E.inv.finish hkey (not_mem_order hi hk E.finishes E.inv.nodup) hclosed
                E.open_reach, ?_, ?_⟩
            · obtain ⟨new, fin, hm, ho, hp⟩ := E.finishes
              refine ⟨(sc.keyFor path, m) :: new, fin ++ [sc.keyFor path], ?_, ?_, ?_⟩
              · simp [hm, Registry.insert]
              · simp [ho, Registry.insert]
              · simpa using (List.perm_append_comm.trans (hp.cons _))
            · intro k hk'
              have hne : k ≠ sc.keyFor path := by rintro rfl; exact hk hk'
              rw [E.agree k (hins.has hk')]
              simp [hne]
            · intro k hk' hnk
              by_cases hkk : k = sc.keyFor path
              · subst hkk; exact Relation.ReflTransGen.refl
              · have hnew : ¬ (reg.insert (sc.keyFor path) m).has k := by
                  rw [has_insert]; exact fun h => h.elim hnk hkk
                exact (E.reach k hk' hnew).mono (extends_finish _ _) (fun _ _ => rfl)
            · intro _
              simp

end Scanner

end ModuleBundler
