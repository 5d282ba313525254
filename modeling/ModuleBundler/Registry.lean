import ModuleBundler.Module.Basic
import ModuleBundler.Error

/-!
The registry that a scan fills: every module read, keyed by its path below the root, the
order in which their scans finished, and the specifiers that led to each.

Dependencies finish before the modules that import them, except inside import cycles. A module
is registered in a bundle under its key and under every specifier that led to it; two modules
may not share a name.
-/

namespace ModuleBundler

/-- Modules found by a scan: the entry's key, each module under its key in the order first
reached, the keys in the order their scans finished, and for each key the specifiers that led
to it (sorted, distinct). -/
structure Registry where
  entry : String := ""
  modules : List (String × Module) := []
  order : List String := []
  aliases : List (String × List String) := []

namespace Registry

/-- Whether a module is registered under the key. -/
def has (r : Registry) (key : String) : Bool :=
  r.modules.any (·.1 == key)

/-- The module registered under the key. -/
def get? (r : Registry) (key : String) : Option Module :=
  (r.modules.find? (·.1 == key)).map (·.2)

/-- The number of modules. -/
def size (r : Registry) : Nat :=
  r.modules.length

/-- Registers a module under a key. -/
def insert (r : Registry) (key : String) (m : Module) : Registry :=
  { r with modules := r.modules ++ [(key, m)] }

/-- Records that the scan of a key has finished. -/
def finish (r : Registry) (key : String) : Registry :=
  { r with order := r.order ++ [key] }

/-- The specifiers that led to a key, sorted. -/
def aliasesOf (r : Registry) (key : String) : List String :=
  ((r.aliases.find? (·.1 == key)).map (·.2)).getD []

/-- Records that a specifier led to a key. -/
def addAlias (r : Registry) (key spec : String) : Registry :=
  if r.aliases.any (·.1 == key) then
    { r with aliases := r.aliases.map fun (k, ss) => if k = key then (k, insertSorted spec ss) else (k, ss) }
  else { r with aliases := r.aliases ++ [(key, [spec])] }

/-- The names a key is registered under: the key, then the specifiers that led to it other
than the key itself. -/
def namesOf (r : Registry) (key : String) : List String :=
  key :: (r.aliasesOf key).filter (· ≠ key)

/-- Gives each name of `names` to `key`, unless an earlier key holds it. -/
def claim (key : String) : List (String × String) → List String →
    Except BundleError (List (String × String))
  | owners, [] => .ok owners
  | owners, name :: names =>
    match owners.find? (·.1 = name) with
    | some (_, previous) =>
      if previous ≠ key then .error (.ambiguous name previous key)
      else claim key owners names
    | none => claim key ((name, key) :: owners) names

/-- The registration names of every key, in finishing order; a name that two keys claim is a
failure that names the first and the second. -/
def registrationNames (r : Registry) : Except BundleError (List (String × List String)) :=
  let step (acc : List (String × String) × List (String × List String)) (key : String) :
      Except BundleError (List (String × String) × List (String × List String)) :=
    (claim key acc.1 (r.namesOf key)).map fun owners => (owners, acc.2 ++ [(key, r.namesOf key)])
  (r.order.foldlM step ([], [])).map (·.2)

/-! What each operation does to `has`, `get?` and `aliasesOf`. -/

theorem has_iff {r : Registry} {k : String} : r.has k ↔ k ∈ r.modules.map (·.1) := by
  simp [has]

theorem mem_of_get? {r : Registry} {k : String} {m : Module} (h : r.get? k = some m) :
    (k, m) ∈ r.modules := by
  simp only [get?, Option.map_eq_some_iff] at h
  obtain ⟨⟨k', m'⟩, hf, rfl⟩ := h
  have hk : k' = k := by simpa using List.find?_some hf
  subst hk
  exact List.mem_of_find?_eq_some hf

theorem has_of_get? {r : Registry} {k : String} {m : Module} (h : r.get? k = some m) :
    r.has k :=
  has_iff.2 (List.mem_map.2 ⟨_, mem_of_get? h, rfl⟩)

theorem exists_get?_of_has {r : Registry} {k : String} (h : r.has k) :
    ∃ m, r.get? k = some m := by
  obtain ⟨⟨k', m⟩, hm, rfl⟩ := List.mem_map.1 (has_iff.1 h)
  have hs : (r.modules.find? (·.1 == k')).isSome := List.find?_isSome.2 ⟨_, hm, by simp⟩
  obtain ⟨e, he⟩ := Option.isSome_iff_exists.1 hs
  exact ⟨e.2, by simp [get?, he]⟩

theorem get?_mono {r r' : Registry} (hp : r.modules <+: r'.modules) {k : String}
    {m : Module} (h : r.get? k = some m) : r'.get? k = some m := by
  obtain ⟨new, he⟩ := hp
  simp only [get?, Option.map_eq_some_iff] at h ⊢
  obtain ⟨e, hf, rfl⟩ := h
  exact ⟨e, by rw [← he, List.find?_append, hf]; rfl, rfl⟩

theorem has_mono {r r' : Registry} (hp : r.modules <+: r'.modules) {k : String}
    (h : r.has k) : r'.has k := by
  obtain ⟨m, hm⟩ := exists_get?_of_has h
  exact has_of_get? (get?_mono hp hm)

theorem has_insert {r : Registry} {k k' : String} {m : Module} :
    (r.insert k m).has k' ↔ r.has k' ∨ k' = k := by
  rw [has_iff, has_iff]
  simp [insert]

theorem get?_insert_self {r : Registry} {k : String} {m : Module} (h : ¬ r.has k) :
    (r.insert k m).get? k = some m := by
  have hn : r.modules.find? (·.1 == k) = none := by
    simp only [List.find?_eq_none, beq_iff_eq]
    intro e he hk
    exact h (has_iff.2 (List.mem_map.2 ⟨e, he, hk⟩))
  simp [get?, insert, List.find?_append, hn]

@[simp] theorem has_finish {r : Registry} {k k' : String} : (r.finish k).has k' = r.has k' := rfl
@[simp] theorem get?_finish {r : Registry} {k k' : String} : (r.finish k).get? k' = r.get? k' :=
  rfl
@[simp] theorem aliasesOf_finish {r : Registry} {k k' : String} :
    (r.finish k).aliasesOf k' = r.aliasesOf k' := rfl
@[simp] theorem modules_finish {r : Registry} {k : String} : (r.finish k).modules = r.modules :=
  rfl
@[simp] theorem order_finish {r : Registry} {k : String} : (r.finish k).order = r.order ++ [k] :=
  rfl
@[simp] theorem aliases_finish {r : Registry} {k : String} : (r.finish k).aliases = r.aliases :=
  rfl

@[simp] theorem modules_addAlias {r : Registry} {k s : String} :
    (r.addAlias k s).modules = r.modules := by
  unfold addAlias; split <;> rfl
@[simp] theorem order_addAlias {r : Registry} {k s : String} :
    (r.addAlias k s).order = r.order := by
  unfold addAlias; split <;> rfl
@[simp] theorem has_addAlias {r : Registry} {k s k' : String} :
    (r.addAlias k s).has k' = r.has k' := by
  simp [has]
@[simp] theorem get?_addAlias {r : Registry} {k s k' : String} :
    (r.addAlias k s).get? k' = r.get? k' := by
  simp [get?]

/-- Updating the specifiers of one key keeps every key in place. -/
theorem find?_map_aliases {l : List (String × List String)} {f : String × List String → String × List String}
    (hf : ∀ x, (f x).1 = x.1) (k : String) :
    (l.map f).find? (·.1 == k) = (l.find? (·.1 == k)).map f := by
  rw [List.find?_map]
  congr 2
  funext x
  simp [hf]

theorem mem_aliasesOf_addAlias {r : Registry} {k s k' t : String} :
    t ∈ (r.addAlias k s).aliasesOf k' ↔ (k' = k ∧ t = s) ∨ t ∈ r.aliasesOf k' := by
  unfold addAlias aliasesOf
  split
  · rename_i hk
    simp only
    rw [find?_map_aliases (fun x => by split <;> rfl)]
    cases hf : r.aliases.find? (·.1 == k') with
    | none =>
      have hne : k' ≠ k := by
        rintro rfl
        obtain ⟨e, he, hek⟩ := List.any_eq_true.1 hk
        exact (List.find?_eq_none.1 hf) e he hek
      simp [hne]
    | some e =>
      obtain ⟨k'', ss⟩ := e
      have hk'' : k'' = k' := by simpa using List.find?_some hf
      subst hk''
      by_cases h : k'' = k
      · subst h; simp
      · simp [h]
  · rename_i hk
    simp only [List.find?_append]
    cases hf : r.aliases.find? (·.1 == k') with
    | none =>
      by_cases hkk : k = k'
      · subst hkk; simp
      · simp [hkk, Ne.symm hkk]
    | some e =>
      have hk' : e.1 = k' := by simpa using List.find?_some hf
      have hne : k' ≠ k := by
        rintro rfl
        exact hk (List.any_eq_true.2 ⟨e, List.mem_of_find?_eq_some hf, by simp [hk']⟩)
      simp [hne]

theorem mem_aliasesOf_addAlias_self {r : Registry} {k s : String} : s ∈ (r.addAlias k s).aliasesOf k :=
  mem_aliasesOf_addAlias.2 (.inl ⟨rfl, rfl⟩)

theorem mem_aliases_addAlias {r : Registry} {k s k' : String} :
    k' ∈ (r.addAlias k s).aliases.map (·.1) ↔ k' ∈ r.aliases.map (·.1) ∨ k' = k := by
  unfold addAlias
  split
  · rename_i hk
    simp only [List.map_map]
    have hfst : ((·.1) ∘ fun (x : String × List String) =>
        if x.1 = k then (x.1, insertSorted s x.2) else (x.1, x.2)) = (·.1) := by
      funext x
      simp only [Function.comp]
      split <;> rfl
    rw [hfst]
    constructor
    · exact .inl
    · rintro (h | rfl)
      · exact h
      · obtain ⟨e, he, hek⟩ := List.any_eq_true.1 hk
        exact List.mem_map.2 ⟨e, he, by simpa using hek⟩
  · simp [eq_comm]

theorem mem_aliases_of_mem_aliasesOf {r : Registry} {k s : String} (h : s ∈ r.aliasesOf k) :
    k ∈ r.aliases.map (·.1) := by
  unfold aliasesOf at h
  cases hf : r.aliases.find? (·.1 == k) with
  | none => simp [hf] at h
  | some e =>
    have hk : e.1 = k := by simpa using List.find?_some hf
    exact List.mem_map.2 ⟨e, List.mem_of_find?_eq_some hf, hk⟩

end Registry

end ModuleBundler
