import ModuleBundler.Proofs.Scan.Termination
import ModuleBundler.Proofs.Bundle.Wiring
import Mathlib

/-!
The names a bundle registers each module under.

Each key is registered under itself and the specifiers that led to it. The check walks the keys
in finishing order with a table of owners: a name already owned by an earlier key is a clash.
One step of that walk either finds no name of the key owned before, and gives them all to it, or
stops at the first name of the key that an earlier key owns (`step_cases`). Since a scan lists
each key once, the names come out, key by key, exactly when no two keys share a name, and
otherwise the walk reports the first clash in order (`registrationNames_outcome`). A scan also
keeps the specifiers of each key sorted (`visit_aliases_sorted`), so each key's names are the
key and then its other specifiers in order (`scan_registration_names`).
-/

namespace ModuleBundler

namespace Registry

variable {r : Registry}

/-- No name of `a` is a name of `b`. -/
def NamesApart (r : Registry) (a b : String) : Prop :=
  ∀ s ∈ r.namesOf a, s ∉ r.namesOf b

theorem NamesApart.symm {a b : String} (h : r.NamesApart a b) : r.NamesApart b a :=
  fun _ hb ha => h _ ha hb

/-! ### Giving the names of one key to it -/

theorem ownerOf_cons (owners : List (String × String)) (name key n : String) :
    ownerOf ((name, key) :: owners) n = if name = n then some key else ownerOf owners n := by
  by_cases h : name = n <;> simp [ownerOf, h]

/-- An owner found for a name that is free or the key's is the key. -/
theorem found_owner_eq {owners : List (String × String)} {name key : String} {p : String × String}
    (hf : owners.find? (·.1 = name) = some p)
    (h : ownerOf owners name = none ∨ ownerOf owners name = some key) : p.2 = key := by
  have hp : ownerOf owners name = some p.2 := by simp [ownerOf, hf]
  rcases h with h | h <;> rw [hp] at h <;> simp_all

/-- Giving a name to a key keeps every name free or the key's. -/
theorem freeOrKey_cons {owners : List (String × String)} {name key : String} {names : List String}
    (h : ∀ n ∈ names, ownerOf owners n = none ∨ ownerOf owners n = some key) :
    ∀ n ∈ names, ownerOf ((name, key) :: owners) n = none ∨
      ownerOf ((name, key) :: owners) n = some key := by
  intro n hn
  rw [ownerOf_cons]
  split
  · exact .inr rfl
  · exact h n hn

/-- When every name is free or already the key's, the key gets them all. -/
theorem claim_ok {key : String} :
    ∀ {names : List String} {owners : List (String × String)},
      (∀ n ∈ names, ownerOf owners n = none ∨ ownerOf owners n = some key) →
      ∃ owners', claim key owners names = .ok owners' ∧
        ∀ n, ownerOf owners' n = (ownerOf owners n).or (if n ∈ names then some key else none)
  | [], owners, _ => ⟨owners, rfl, fun n => by simp⟩
  | name :: names, owners, h => by
    have hrest : ∀ n ∈ names, ownerOf owners n = none ∨ ownerOf owners n = some key :=
      fun n hn => h n (List.mem_cons_of_mem _ hn)
    unfold claim
    cases hf : owners.find? (·.1 = name) with
    | some p =>
      -- the name is the key's already
      have hp : ownerOf owners name = some p.2 := by simp [ownerOf, hf]
      have hkey : p.2 = key := found_owner_eq hf (h name List.mem_cons_self)
      obtain ⟨owners', hc, hown⟩ := claim_ok hrest
      refine ⟨owners', by simpa [hkey] using hc, fun n => ?_⟩
      rw [hown n]
      by_cases hn : n = name
      · subst hn
        simp [hp, hkey]
      · simp [hn]
    | none =>
      have hnone : ownerOf owners name = none := by simp [ownerOf, hf]
      obtain ⟨owners', hc, hown⟩ := claim_ok (freeOrKey_cons hrest)
      refine ⟨owners', hc, fun n => ?_⟩
      rw [hown n, ownerOf_cons]
      by_cases hn : name = n
      · subst hn
        simp [hnone]
      · simp [hn, Ne.symm hn]

/-- The first name of the key that another key owns stops the walk with a clash. -/
theorem claim_error {key s a : String} (ha : a ≠ key) :
    ∀ {mid : List String} {owners : List (String × String)} (rest : List String),
      (∀ n ∈ mid, ownerOf owners n = none ∨ ownerOf owners n = some key) →
      ownerOf owners s = some a →
      claim key owners (mid ++ s :: rest) = .error (.ambiguous s a key)
  | [], owners, rest, _, hs => by
    obtain ⟨p, hf, rfl⟩ := Option.map_eq_some_iff.1 hs
    simp only [List.nil_append, claim, hf]
    simp [ha]
  | m :: mid, owners, rest, hmid, hs => by
    have hrest : ∀ n ∈ mid, ownerOf owners n = none ∨ ownerOf owners n = some key :=
      fun n hn => hmid n (List.mem_cons_of_mem _ hn)
    rw [List.cons_append]
    unfold claim
    cases hf : owners.find? (·.1 = m) with
    | some p =>
      have hkey : p.2 = key := found_owner_eq hf (hmid m List.mem_cons_self)
      simpa [hkey] using claim_error ha rest hrest hs
    | none =>
      have hnone : ownerOf owners m = none := by simp [ownerOf, hf]
      have hms : m ≠ s := by
        rintro rfl
        rw [hnone] at hs
        cases hs
      exact claim_error ha rest (freeOrKey_cons hrest) (by rw [ownerOf_cons, if_neg hms]; exact hs)

/-! ### The walk over the keys -/

/-- One step of the walk: give the names of `key` to it, and list them. -/
def namesStep (r : Registry) (acc : List (String × String) × List (String × List String))
    (key : String) : Except BundleError (List (String × String) × List (String × List String)) :=
  (claim key acc.1 (r.namesOf key)).map fun owners => (owners, acc.2 ++ [(key, r.namesOf key)])

theorem registrationNames_eq (r : Registry) :
    r.registrationNames = (r.order.foldlM r.namesStep ([], [])).map (·.2) := rfl

/-- The walk has met the keys `done`: each name is owned by the first of them that has it. -/
def Walked (r : Registry) (done : List String)
    (acc : List (String × String) × List (String × List String)) : Prop :=
  ∀ n, ownerOf acc.1 n = done.find? fun a => n ∈ r.namesOf a

theorem walked_nil : r.Walked [] ([], []) := fun _ => rfl

/-- One step of the walk: a key none of whose names an earlier key has gets them all; otherwise
the first of its names that an earlier key has is reported with the first key that has it. -/
theorem step_cases {done : List String} {acc : List (String × String) × List (String × List String)}
    {b : String} (hw : r.Walked done acc) (hb : b ∉ done) :
    ((∀ n ∈ r.namesOf b, ∀ a ∈ done, n ∉ r.namesOf a) ∧
      ∃ acc', r.namesStep acc b = .ok acc' ∧ r.Walked (done ++ [b]) acc') ∨
    (∃ mid s rest a, r.namesOf b = mid ++ s :: rest ∧ a ∈ done ∧ s ∈ r.namesOf a ∧
      (∀ n ∈ mid, ∀ a ∈ done, n ∉ r.namesOf a) ∧
      r.namesStep acc b = .error (.ambiguous s a b)) := by
  have hfree : ∀ n, (∀ a ∈ done, n ∉ r.namesOf a) → ownerOf acc.1 n = none := by
    intro n hn
    rw [hw n, List.find?_eq_none]
    simpa using hn
  cases hfind : (r.namesOf b).find? (fun n => done.any fun a => n ∈ r.namesOf a) with
  | none =>
    -- no name of `b` is an earlier key's
    have hnone : ∀ n ∈ r.namesOf b, ∀ a ∈ done, n ∉ r.namesOf a := by
      intro n hn a ha hna
      have := List.find?_eq_none.1 hfind n hn
      simp only [List.any_eq_true, decide_eq_true_eq, not_exists, not_and] at this
      exact this a ha hna
    obtain ⟨owners', hc, hown'⟩ := @claim_ok b (r.namesOf b) acc.1
      fun n hn => .inl (hfree n (hnone n hn))
    refine .inl ⟨hnone, _, by simp [namesStep, hc]; rfl, fun n => ?_⟩
    rw [hown' n, hw n, List.find?_append]
    simp
  | some s =>
    -- the first name of `b` that an earlier key has
    obtain ⟨hs, mid, rest, hsplit, hmid⟩ := List.find?_eq_some_iff_append.1 hfind
    simp only [List.any_eq_true, decide_eq_true_eq] at hs
    obtain ⟨a₀, ha₀, hsa₀⟩ := hs
    have hfirst : ∃ a, (done.find? fun a => s ∈ r.namesOf a) = some a := by
      cases h : done.find? fun a => s ∈ r.namesOf a with
      | none => exact absurd hsa₀ (by simpa using List.find?_eq_none.1 h a₀ ha₀)
      | some a => exact ⟨a, rfl⟩
    obtain ⟨a, ha⟩ := hfirst
    have hamem : a ∈ done := List.mem_of_find?_eq_some ha
    have hsa : s ∈ r.namesOf a := by simpa using List.find?_some ha
    have hmid' : ∀ n ∈ mid, ∀ a ∈ done, n ∉ r.namesOf a := by
      intro n hn a ha hna
      have := hmid n hn
      simp only [List.any_eq_true, decide_eq_true_eq, Bool.not_eq_true', Bool.eq_false_iff,
        ne_eq, not_exists, not_and] at this
      exact this a ha hna
    have hab : a ≠ b := fun h => hb (h ▸ hamem)
    refine .inr ⟨mid, s, rest, a, hsplit, hamem, hsa, hmid', ?_⟩
    have hc := claim_error hab rest (fun n hn => .inl (hfree n (hmid' n hn)))
      (by rw [hw s, ha])
    simp only [namesStep, hsplit, hc]
    rfl

/-- A walk over keys that share no name succeeds. -/
theorem walk_of_apart : ∀ (l done : List String) (acc : List (String × String) × List (String × List String)),
    r.Walked done acc → (done ++ l).Nodup → (done ++ l).Pairwise r.NamesApart →
    ∃ acc', l.foldlM r.namesStep acc = .ok acc'
  | [], _, acc, _, _, _ => ⟨acc, rfl⟩
  | b :: l, done, acc, hw, hnd, hp => by
    have hb : b ∉ done := fun hb => List.disjoint_of_nodup_append hnd hb List.mem_cons_self
    rcases step_cases hw hb with ⟨-, acc₁, hacc, hw₁⟩ | ⟨mid, s, rest, a, hsplit, ha, hsa, -, -⟩
    · rw [List.foldlM_cons, hacc]
      exact walk_of_apart l (done ++ [b]) acc₁ hw₁ (by simpa using hnd) (by simpa using hp)
    · -- the names of `b` are apart from those of the earlier key `a`
      have hab := (List.pairwise_append.1 hp).2.2 a ha b List.mem_cons_self
      exact absurd (by rw [hsplit]; simp) (hab s hsa)

/-- A walk that fails stops at the first clash: a key `b` after the keys `pre`, which share no
name among themselves, whose name `s` is the first of its names that an earlier key `a` has. -/
theorem walk_error : ∀ (l done : List String) (acc : List (String × String) × List (String × List String))
    (e : BundleError), r.Walked done acc → (done ++ l).Nodup → done.Pairwise r.NamesApart →
    l.foldlM r.namesStep acc = .error e →
    ∃ pre b post mid s rest a, l = pre ++ b :: post ∧ r.namesOf b = mid ++ s :: rest ∧
      a ∈ done ++ pre ∧ s ∈ r.namesOf a ∧ e = .ambiguous s a b ∧
      (done ++ pre).Pairwise r.NamesApart ∧ ∀ n ∈ mid, ∀ a ∈ done ++ pre, n ∉ r.namesOf a
  | [], _, _, _, _, _, _, h => by cases h
  | b :: l, done, acc, e, hw, hnd, hp, h => by
    have hb : b ∉ done := fun hb => List.disjoint_of_nodup_append hnd hb List.mem_cons_self
    rw [List.foldlM_cons] at h
    rcases step_cases hw hb with ⟨hfree, acc₁, hacc, hw₁⟩ |
        ⟨mid, s, rest, a, hsplit, ha, hsa, hmid, herr⟩
    · rw [hacc] at h
      have hp₁ : (done ++ [b]).Pairwise r.NamesApart := by
        refine List.pairwise_append.2 ⟨hp, by simp, ?_⟩
        intro a ha b' hb'
        rw [List.mem_singleton] at hb'
        subst hb'
        exact (fun n hna hnb => hfree n hnb a ha hna)
      obtain ⟨pre, b', post, mid, s, rest, a, rfl, hsplit, ha, hsa, rfl, hpre, hmid⟩ :=
        walk_error l (done ++ [b]) acc₁ e hw₁ (by simpa using hnd) hp₁ h
      exact ⟨b :: pre, b', post, mid, s, rest, a, rfl, hsplit, by simpa using ha, hsa, rfl,
        by simpa using hpre, by simpa using hmid⟩
    · rw [herr] at h
      cases h
      exact ⟨[], b, l, mid, s, rest, a, rfl, hsplit, by simpa using ha, hsa, rfl,
        by simpa using hp, by simpa using hmid⟩

/-- When every key has one place in the order, the registration names come out, key by key in
order, exactly when no two keys share a name; otherwise the check reports the first clash met
walking the keys in order and each key's names in order, with the earlier key that has it. -/
theorem registrationNames_outcome (h : r.order.Nodup) :
    (∀ L, r.registrationNames = .ok L ↔
      r.order.Pairwise r.NamesApart ∧ L = r.order.map fun k => (k, r.namesOf k)) ∧
    (∀ e, r.registrationNames = .error e →
      ∃ pre b post mid s rest a, r.order = pre ++ b :: post ∧ r.namesOf b = mid ++ s :: rest ∧
        a ∈ pre ∧ s ∈ r.namesOf a ∧ e = .ambiguous s a b ∧ pre.Pairwise r.NamesApart ∧
        ∀ n ∈ mid, ∀ a ∈ pre, n ∉ r.namesOf a) := by
  refine ⟨fun L => ⟨fun hL => ?_, fun ⟨hp, hL⟩ => ?_⟩, fun e he => ?_⟩
  · -- a name of two keys would have two owners
    obtain ⟨hlist, huniq⟩ := registrationNames_spec hL
    exact ⟨h.pairwise_of_forall_ne fun a ha b hb hab n hna hnb => hab (huniq a ha b hb n hna hnb),
      hlist⟩
  · obtain ⟨acc, hacc⟩ := walk_of_apart r.order [] _ walked_nil (by simpa using h)
      (by simpa using hp)
    have hok : r.registrationNames = .ok acc.2 := by rw [registrationNames_eq, hacc]; rfl
    rw [hok, hL, (registrationNames_spec hok).1]
  · rw [registrationNames_eq] at he
    cases hf : r.order.foldlM r.namesStep ([], []) with
    | ok acc => rw [hf] at he; cases he
    | error e' =>
      rw [hf] at he
      cases he
      simpa using walk_error r.order [] _ e walked_nil (by simpa using h) .nil hf

/-! ### Specifiers are recorded in order -/

/-- The specifiers recorded for every key are sorted and distinct. -/
def AliasesSorted (r : Registry) : Prop :=
  ∀ k, (r.aliasesOf k).Pairwise (· < ·)

theorem aliasesOf_addAlias {k s k' : String} :
    (r.addAlias k s).aliasesOf k' =
      if k' = k then insertSorted s (r.aliasesOf k) else r.aliasesOf k' := by
  unfold addAlias aliasesOf
  split
  · rename_i hk
    rw [find?_map_aliases (fun _ => by split; split <;> rfl)]
    by_cases hkk : k' = k
    · subst hkk
      obtain ⟨e, he, hek⟩ := List.any_eq_true.1 hk
      cases hf : r.aliases.find? (·.1 == k') with
      | none => exact absurd hek (by simpa using List.find?_eq_none.1 hf e he)
      | some e' =>
        have he' : e'.1 = k' := by simpa using List.find?_some hf
        simp [he']
    · cases hf : r.aliases.find? (·.1 == k') with
      | none => simp [hkk]
      | some e' =>
        have he' : e'.1 = k' := by simpa using List.find?_some hf
        simp [he', hkk]
  · rename_i hk
    rw [List.find?_append]
    by_cases hkk : k' = k
    · subst hkk
      have hf : r.aliases.find? (·.1 == k') = none := by
        rw [List.find?_eq_none]
        intro e he hek
        exact hk (List.any_eq_true.2 ⟨e, he, hek⟩)
      simp [hf, insertSorted]
    · simp [hkk, Ne.symm hkk]

theorem AliasesSorted.addAlias (h : r.AliasesSorted) (k s : String) :
    (r.addAlias k s).AliasesSorted := by
  intro k'
  rw [aliasesOf_addAlias]
  split
  · exact pairwise_insertSorted (h k)
  · exact h k'

end Registry

namespace Scanner

open Registry

variable {sc : Scanner}

/-- A visit keeps the specifiers of every key sorted. -/
theorem visit_aliases_sorted : ∀ (d : Nat) (path : Path) (reg reg' : Registry) (key : String),
    sc.visit d path reg = .ok (key, reg') → reg.AliasesSorted → reg'.AliasesSorted
  | 0, _, _, _, _, h, _ => by cases h
  | d + 1, path, reg, reg', key, h, hs => by
    rw [visit_succ] at h
    split at h
    · cases h
      exact hs
    split at h
    · cases h
    split at h
    · cases h
    split at h
    · cases h
    rename_i reg₁ hfold
    cases h
    -- each step of the walk over the imports records one specifier after a visit
    refine foldlM_rel (fun a b => a.AliasesSorted → b.AliasesSorted) (fun _ h => h)
      (fun _ _ _ h₁ h₂ h => h₂ (h₁ h)) ?_ _ _ _ hfold (fun k => hs k)
    intro b spec b' hf hb
    obtain ⟨target, child, r₁, -, hv, rfl⟩ := follow_ok hf
    exact (visit_aliases_sorted d target b r₁ child hv hb).addAlias child spec

/-- For the registry of a successful scan: each key's specifiers are sorted; the registration
names come out exactly when no two keys share a name, and then they list, key by key in
finishing order, the key and its other specifiers; otherwise the check reports the first clash
met walking the keys in order and each key's names in order, together with the earlier key that
has the name. -/
theorem scan_registration_names {entry : String} {reg : Registry} (h : sc.scan entry = .ok reg) :
    (∀ k, (reg.aliasesOf k).Pairwise (· < ·)) ∧
    (∀ L, reg.registrationNames = .ok L ↔
      (∀ a b, reg.has a → reg.has b → a ≠ b → reg.NamesApart a b) ∧
      L = reg.order.map fun k => (k, k :: (reg.aliasesOf k).filter (· ≠ k))) ∧
    (∀ e, reg.registrationNames = .error e →
      ∃ pre b post mid s rest a, reg.order = pre ++ b :: post ∧ reg.namesOf b = mid ++ s :: rest ∧
        a ∈ pre ∧ s ∈ reg.namesOf a ∧ e = .ambiguous s a b ∧ pre.Pairwise reg.NamesApart ∧
        ∀ n ∈ mid, ∀ a ∈ pre, n ∉ reg.namesOf a) := by
  obtain ⟨-, hnd, hperm, -⟩ := scan_registry_closed h
  have hord : reg.order.Nodup := hperm.nodup_iff.2 hnd
  have hmem : ∀ k, reg.has k ↔ k ∈ reg.order := fun k => has_iff.trans hperm.mem_iff.symm
  obtain ⟨hok, herr⟩ := registrationNames_outcome hord
  have hsorted : reg.AliasesSorted := by
    simp only [scan] at h
    split at h
    · cases h
    rename_i key reg₀ hv
    cases h
    have h₀ : ({} : Registry).AliasesSorted := fun _ => List.Pairwise.nil
    -- the entry is written into the registry the visit ends with, its specifiers untouched
    exact fun k => visit_aliases_sorted _ _ _ _ _ hv h₀ k
  refine ⟨hsorted, fun L => ?_, herr⟩
  rw [hok L]
  -- pairwise over the order is pairwise over distinct keys, as it lists each key once
  have hapart : reg.order.Pairwise reg.NamesApart ↔
      ∀ a b, reg.has a → reg.has b → a ≠ b → reg.NamesApart a b := by
    constructor
    · intro hp a b ha hb hab
      have : Std.Symm reg.NamesApart := ⟨fun _ _ h => NamesApart.symm h⟩
      exact hp.forall ((hmem a).1 ha) ((hmem b).1 hb) hab
    · intro hall
      exact hord.pairwise_of_forall_ne fun a ha b hb hab => hall a b ((hmem a).2 ha) ((hmem b).2 hb) hab
  rw [hapart]
  rfl

/-- The cycle of two files: its registry gets its registration names as the scan states them. -/
theorem scan_cycle_registration_names :
    ∃ reg, (Scanner.new cycleWorkspace "" .textual).scan "a.js" = .ok reg ∧
      (∀ k, (reg.aliasesOf k).Pairwise (· < ·)) ∧
      (∀ L, reg.registrationNames = .ok L ↔
        (∀ a b, reg.has a → reg.has b → a ≠ b → reg.NamesApart a b) ∧
        L = reg.order.map fun k => (k, k :: (reg.aliasesOf k).filter (· ≠ k))) ∧
      (∀ e, reg.registrationNames = .error e →
        ∃ pre b post mid s rest a, reg.order = pre ++ b :: post ∧
          reg.namesOf b = mid ++ s :: rest ∧ a ∈ pre ∧ s ∈ reg.namesOf a ∧
          e = .ambiguous s a b ∧ pre.Pairwise reg.NamesApart ∧
          ∀ n ∈ mid, ∀ a ∈ pre, n ∉ reg.namesOf a) := by
  obtain ⟨reg, h, -⟩ := scan_cycle_ok
  exact ⟨reg, h, scan_registration_names h⟩

end Scanner

end ModuleBundler
