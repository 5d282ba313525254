import ModuleBundler.Proofs.Scan.Closure
import ModuleBundler.Bundle.Basic
import Mathlib

/-!
Which block of a bundle a registry lookup reaches.

A bundle registers each module's factory under its key and under every specifier that
resolved to it, and refuses a name that two keys claim. So each specifier a module imports is
registered by exactly one block, the block of the key it resolved to, and that block holds the
module read for the key. It holds the parse of the imported file itself whenever no other file
of the tree has the same key; where two files share a key, the module read first stands for
both. Main statement: `make_wires_lookups`.
-/

namespace ModuleBundler

namespace Workspace

theorem isFile_of_read {ws : Workspace} {p : Path} {t : String} (h : ws.read p = .ok t) :
    ws.isFile p := by
  unfold read at h
  split at h
  · cases h
  rename_i hnul
  split at h
  · cases h
  split at h
  · cases h
  rename_i hlong
  unfold isFile
  cases hl : ws.locate p <;> simp [hl, readAt] at h ⊢
  exact ⟨by simpa using hnul, by simpa using hlong⟩

end Workspace

namespace Scanner

theorem isFile_of_resolve {sc : Scanner} {importer : Path} {key spec : String} {q : Path}
    (h : sc.resolve importer key spec = .ok q) : sc.workspace.isFile q := by
  unfold resolve at h
  simp only at h
  split_ifs at h with hres hjs
  · cases h
    exact hres
  · cases h
    exact (Bool.and_eq_true _ _ ▸ hjs).2

end Scanner

namespace Registry

theorem exists_of_map_eq_ok {α β ε : Type} {f : α → β} {x : Except ε α} {b : β}
    (h : x.map f = .ok b) : ∃ a, x = .ok a ∧ f a = b := by
  cases x with
  | error e => cases h
  | ok a => cases h; exact ⟨a, rfl, rfl⟩

/-- The key that holds a name in a list of owners. -/
def ownerOf (owners : List (String × String)) (n : String) : Option String :=
  (owners.find? (·.1 = n)).map (·.2)

theorem ownerOf_cons_self {owners : List (String × String)} {n k : String} :
    ownerOf ((n, k) :: owners) n = some k := by
  simp [ownerOf]

theorem ownerOf_cons_ne {owners : List (String × String)} {n n' k : String} (h : n' ≠ n) :
    ownerOf ((n, k) :: owners) n' = ownerOf owners n' := by
  simp [ownerOf, Ne.symm h]

/-- Claiming names for `key` gives each of them to `key`, which only succeeds when none of
them had another owner, and leaves every other name's owner alone. -/
theorem claim_spec {key : String} {names : List String} :
    ∀ {owners owners' : List (String × String)}, claim key owners names = .ok owners' →
      (∀ n ∈ names, ownerOf owners' n = some key ∧
        (ownerOf owners n = none ∨ ownerOf owners n = some key)) ∧
      (∀ n, n ∉ names → ownerOf owners' n = ownerOf owners n) := by
  induction names with
  | nil =>
    intro owners owners' h
    cases h
    exact ⟨by simp, fun _ _ => rfl⟩
  | cons n ns ih =>
    intro owners owners' h
    unfold claim at h
    split at h
    · rename_i previous hf
      split at h
      · cases h
      · rename_i hprev
        have hprev : previous = key := not_not.1 hprev
        subst hprev
        have hown : ownerOf owners n = some previous := by simp [ownerOf, hf]
        obtain ⟨hin, hout⟩ := ih h
        refine ⟨?_, fun n' hn' => hout n' (fun h' => hn' (List.mem_cons_of_mem _ h'))⟩
        intro n' hn'
        rcases List.mem_cons.1 hn' with rfl | hn'
        · by_cases hns : n' ∈ ns
          · exact hin n' hns
          · exact ⟨(hout n' hns).trans hown, .inr hown⟩
        · exact hin n' hn'
    · rename_i hf
      have hnone : ownerOf owners n = none := by simp [ownerOf, hf]
      obtain ⟨hin, hout⟩ := ih h
      refine ⟨?_, ?_⟩
      · intro n' hn'
        rcases List.mem_cons.1 hn' with rfl | hn'
        · refine ⟨?_, .inl hnone⟩
          by_cases hns : n' ∈ ns
          · exact (hin n' hns).1
          · exact (hout n' hns).trans ownerOf_cons_self
        · refine ⟨(hin n' hn').1, ?_⟩
          by_cases hnn : n' = n
          · subst hnn; exact .inl hnone
          · rw [← ownerOf_cons_ne (k := key) hnn]; exact (hin n' hn').2
      · intro n' hn'
        have hnn : n' ≠ n := fun e => hn' (e ▸ List.mem_cons_self)
        rw [hout n' (fun h' => hn' (List.mem_cons_of_mem _ h')), ownerOf_cons_ne hnn]

/-- Folding the claims over keys `ks`: each key of `ks` owns all its names afterwards, and the
lists are the keys with their names. -/
theorem foldlM_claim {r : Registry}
    {step : List (String × String) × List (String × List String) → String →
      Except BundleError (List (String × String) × List (String × List String))}
    (hstep : ∀ acc k acc', step acc k = .ok acc' → ∃ owners,
      claim k acc.1 (r.namesOf k) = .ok owners ∧ acc' = (owners, acc.2 ++ [(k, r.namesOf k)]))
    (ks : List String) :
    ∀ (done : List String) (acc acc' : List (String × String) × List (String × List String)),
      (∀ k ∈ done, ∀ n ∈ r.namesOf k, ownerOf acc.1 n = some k) → ks.foldlM step acc = .ok acc' →
      (∀ k ∈ done ++ ks, ∀ n ∈ r.namesOf k, ownerOf acc'.1 n = some k) ∧
        acc'.2 = acc.2 ++ ks.map fun k => (k, r.namesOf k) := by
  induction ks with
  | nil =>
    intro done acc acc' hown h
    cases h
    exact ⟨by simpa using hown, by simp⟩
  | cons k ks ih =>
    intro done acc acc' hown h
    obtain ⟨acc₁, hs, hrest⟩ := Scanner.foldlM_cons_eq_ok h
    obtain ⟨owners, hc, rfl⟩ := hstep acc k acc₁ hs
    obtain ⟨hin, hout⟩ := claim_spec hc
    -- after `k` claims its names, every earlier key still owns its own
    have hown₁ : ∀ k' ∈ done ++ [k], ∀ n ∈ r.namesOf k', ownerOf owners n = some k' := by
      intro k' hk' n hn
      rcases List.mem_append.1 hk' with hk' | hk'
      · have hold := hown k' hk' n hn
        by_cases hnk : n ∈ r.namesOf k
        · obtain ⟨hnew, hprev | hprev⟩ := hin n hnk
          · rw [hold] at hprev; cases hprev
          · rw [hold] at hprev; rw [hnew, ← hprev]
        · rw [hout n hnk, hold]
      · simp only [List.mem_singleton] at hk'
        subst hk'
        exact (hin n hn).1
    obtain ⟨h₁, h₂⟩ := ih (done ++ [k]) _ acc' hown₁ hrest
    exact ⟨by simpa using h₁, by simp [h₂]⟩

theorem mem_namesOf {r : Registry} {k n : String} :
    n ∈ r.namesOf k ↔ n = k ∨ n ∈ r.aliasesOf k := by
  unfold namesOf
  by_cases h : n = k
  · simp [h]
  · simp [h]

/-- Registration names are the keys in order, each with its names, and no name belongs to two
keys. -/
theorem registrationNames_spec {r : Registry} {names : List (String × List String)}
    (h : r.registrationNames = .ok names) :
    names = r.order.map (fun k => (k, r.namesOf k)) ∧
      ∀ k₁ ∈ r.order, ∀ k₂ ∈ r.order, ∀ n ∈ r.namesOf k₁, n ∈ r.namesOf k₂ → k₁ = k₂ := by
  unfold registrationNames at h
  obtain ⟨acc, hf, rfl⟩ := exists_of_map_eq_ok h
  obtain ⟨hown, hlist⟩ := foldlM_claim (fun acc k acc' hs => by
      cases hc : claim k acc.1 (r.namesOf k) with
      | error e => rw [hc] at hs; cases hs
      | ok owners => rw [hc] at hs; cases hs; exact ⟨owners, rfl, rfl⟩)
    r.order [] _ acc (by simp) hf
  refine ⟨by simpa using hlist, ?_⟩
  intro k₁ hk₁ k₂ hk₂ n hn₁ hn₂
  have e₁ := hown k₁ (by simpa using hk₁) n hn₁
  have e₂ := hown k₂ (by simpa using hk₂) n hn₂
  exact Option.some.inj (e₁.symm.trans e₂)

end Registry

namespace Bundle

open Registry Scanner

/-- A bundle is made whenever the scan succeeds and no name has two owners. -/
theorem make_ok_of_scan {ws : Workspace} {opts : Options} {base entry : String} {reg : Registry}
    {names : List (String × List String)}
    (hs : (Scanner.new ws base opts.mode).scan (String.ofList (entry.toList.dropWhile (· = '/'))) =
      .ok reg)
    (hn : reg.registrationNames = .ok names) : ∃ bundle, make ws opts base entry = .ok bundle := by
  unfold make render
  rw [hs]
  simp only [hn]
  exact ⟨_, rfl⟩

/-- A bundle that is made wires every lookup of a specifier to the block of the key that the
specifier resolved to, and to no other block; that block holds the module read for the key,
which is the parse of the resolved file itself whenever no other file of the tree has its key.
The entry key, too, is registered by its own block only. -/
theorem make_wires_lookups {ws : Workspace} {opts : Options} {base entry bundle : String}
    (h : make ws opts base entry = .ok bundle) :
    ∃ (sc : Scanner) (reg : Registry) (names : List (String × List String)) (src : String → Path),
      sc = Scanner.new ws base opts.mode ∧
      sc.scan (String.ofList (entry.toList.dropWhile (· = '/'))) = .ok reg ∧
      reg.registrationNames = .ok names ∧ render opts reg = .ok bundle ∧
      (∀ k m, reg.get? k = some m → sc.ReadAs k (src k) m) ∧
      (∀ k m, reg.get? k = some m → ∀ s ∈ m.specifiers, ∃ q,
        sc.resolve (src k) k s = .ok q ∧
        (∃! e, e ∈ names ∧ s ∈ e.2) ∧
        (sc.keyFor q, reg.namesOf (sc.keyFor q)) ∈ names ∧ s ∈ reg.namesOf (sc.keyFor q) ∧
        ∃ m', reg.get? (sc.keyFor q) = some m' ∧ sc.ReadAs (sc.keyFor q) (src (sc.keyFor q)) m' ∧
          ((∀ p, ws.isFile p → sc.keyFor p = sc.keyFor q → p = q) →
            ∃ text, ws.read q = .ok text ∧ Module.parse (sc.keyFor q) text opts.mode = .ok m')) ∧
      (∀ e ∈ names, reg.entry ∈ e.2 → e.1 = reg.entry) := by
  unfold make at h
  split at h
  · cases h
  rename_i reg hscan
  have hrender := h
  unfold render at h
  split at h
  · cases h
  rename_i names hnames
  obtain ⟨src, hnodup, hperm, hlast, hread, hclosed, -, -, -⟩ := scan_registry_closed hscan
  obtain ⟨hlist, huniq⟩ := registrationNames_spec hnames
  -- a name in some registration list belongs to the list of the one key that holds it
  have hone : ∀ k ∈ reg.order, ∀ n ∈ reg.namesOf k, ∃! e, e ∈ names ∧ n ∈ e.2 := by
    intro k hk n hn
    refine ⟨(k, reg.namesOf k), ⟨by rw [hlist]; exact List.mem_map_of_mem hk, hn⟩, ?_⟩
    rintro e ⟨he, hne⟩
    rw [hlist] at he
    obtain ⟨k', hk', rfl⟩ := List.mem_map.1 he
    rw [huniq k' hk' k hk n hne hn]
  refine ⟨_, reg, names, src, rfl, hscan, hnames, hrender, hread, ?_, ?_⟩
  · intro k m hm s hs
    obtain ⟨q, hq, hkey, hal⟩ := hclosed k (has_of_get? hm) m hm s hs
    have hord : (Scanner.new ws base opts.mode).keyFor q ∈ reg.order :=
      hperm.mem_iff.2 (has_iff.1 hkey)
    have hname : s ∈ reg.namesOf ((Scanner.new ws base opts.mode).keyFor q) :=
      mem_namesOf.2 (.inr hal)
    obtain ⟨m', hm'⟩ := exists_get?_of_has hkey
    have hr := hread _ m' hm'
    refine ⟨q, hq, hone _ hord s hname, by rw [hlist]; exact List.mem_map_of_mem hord, hname,
      m', hm', hr, fun hfiles => ?_⟩
    obtain ⟨hk, text, ht, hp⟩ := hr
    -- the file read for the key has the key of `q`, so it is `q`
    have hsrc := hfiles _ (Workspace.isFile_of_read ht) hk
    rw [hsrc] at ht
    exact ⟨text, ht, hp⟩
  · intro e he hentry
    have hmem : reg.entry ∈ reg.order := List.mem_of_getLast? hlast
    obtain ⟨e', -, huniq'⟩ := hone _ hmem reg.entry (mem_namesOf.2 (.inl rfl))
    rw [hlist] at he
    obtain ⟨k', hk', rfl⟩ := List.mem_map.1 he
    exact huniq k' hk' _ hmem reg.entry hentry (mem_namesOf.2 (.inl rfl))

theorem make_cycle_wires :
    ∃ bundle, make cycleWorkspace {} "" "a.js" = .ok bundle ∧
      ∃ (sc : Scanner) (reg : Registry) (names : List (String × List String)) (src : String → Path),
        sc = Scanner.new cycleWorkspace "" .textual ∧
        sc.scan (String.ofList ("a.js".toList.dropWhile (· = '/'))) = .ok reg ∧
        reg.registrationNames = .ok names ∧ render {} reg = .ok bundle ∧
        (∀ k m, reg.get? k = some m → sc.ReadAs k (src k) m) ∧
        (∀ k m, reg.get? k = some m → ∀ s ∈ m.specifiers, ∃ q,
          sc.resolve (src k) k s = .ok q ∧
          (∃! e, e ∈ names ∧ s ∈ e.2) ∧
          (sc.keyFor q, reg.namesOf (sc.keyFor q)) ∈ names ∧ s ∈ reg.namesOf (sc.keyFor q) ∧
          ∃ m', reg.get? (sc.keyFor q) = some m' ∧ sc.ReadAs (sc.keyFor q) (src (sc.keyFor q)) m' ∧
            ((∀ p, cycleWorkspace.isFile p → sc.keyFor p = sc.keyFor q → p = q) →
              ∃ text, cycleWorkspace.read q = .ok text ∧
                Module.parse (sc.keyFor q) text .textual = .ok m')) ∧
        (∀ e ∈ names, reg.entry ∈ e.2 → e.1 = reg.entry) := by
  obtain ⟨reg, hs, names, hn⟩ := scan_cycle_ok
  obtain ⟨bundle, h⟩ := @make_ok_of_scan cycleWorkspace {} "" "a.js" reg names hs hn
  exact ⟨bundle, h, make_wires_lookups h⟩

end Bundle

end ModuleBundler
