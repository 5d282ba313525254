import ModuleBundler.Proofs.Scan.Closure
import Mathlib

/-!
The order in which a scan finishes its keys.

A key finishes after the scans of all its imports, so dependencies come first, except inside
cycles of imports. Reachability alone does not decide the order: a key inside a cycle may finish
before a key that another member of the cycle imports later (`scan_order_through_cycle`). What
holds is the post-order property of a depth-first search: a key comes after every key it
reaches along imports through keys that do not reach it back (`scan_dependencies_first`).
-/

namespace ModuleBundler.Scanner

open Registry

variable {sc : Scanner}

/-- A visit from the empty registry finishes every key it registers. -/
theorem Visited.mem_order {src src' : String → Path} {path : Path} {key : String}
    {reg' : Registry} (V : sc.Visited {} src path key reg' src') {k : String} (hk : reg'.has k) :
    k ∈ reg'.order := by
  obtain ⟨new, fin, hm, ho, hp⟩ := V.finishes
  simp only [List.nil_append] at hm ho
  rw [ho]
  exact hp.mem_iff.2 (by rw [← hm]; exact has_iff.1 hk)

/-- After a successful scan, with `src` the file read for each key, every key comes after all
that it reaches outside its import cycle. -/
theorem scan_dependencies_first {entry : String} {reg : Registry} (h : sc.scan entry = .ok reg) :
    ∃ src : String → Path,
      (∀ k m, reg.get? k = some m → sc.ReadAs k (src k) m) ∧
      (∀ k, reg.has k → sc.Closed reg src k) ∧
      ∀ a b, reg.has a → sc.ReachesOutside reg src a b → List.Sublist [b, a] reg.order := by
  obtain ⟨reg₀, src, hreg, V⟩ := scan_visited h
  rw [hreg]
  refine ⟨src, V.inv.read, fun k hk => (V.inv.finished k (V.mem_order hk)).2, ?_⟩
  intro a b ha hr
  exact V.inv.ordered a (V.mem_order ha) b hr

/-- Three modules: `v` imports `a` and then `b`, and `a` imports `v` back. The specifiers start
at the root, so each names the same file whichever module imports it. -/
def throughCycleWorkspace : Workspace :=
  ⟨[(["v"], .file "import '/a';\nimport '/b';\n".toUTF8), (["a"], .file "import '/v';\n".toUTF8),
    (["b"], .file "".toUTF8)], none⟩

/-- An import of a module whose specifiers are known. -/
theorem imports_of_specifiers {reg : Registry} {src : String → Path} {k s k' : String}
    {ss : List String} (hm : (reg.get? k).map Module.specifiers = some ss) (hs : s ∈ ss)
    (hq : ∃ q, sc.resolve (src k) k s = .ok q ∧ sc.keyFor q = k') :
    sc.Imports reg src k s k' := by
  obtain ⟨m, hget, rfl⟩ := Option.map_eq_some_iff.1 hm
  obtain ⟨q, hq, hk⟩ := hq
  exact ⟨m, q, hget, hs, hq, hk⟩

/-- A module without imports reaches only itself. -/
theorem eq_of_reaches_of_specifiers_nil {reg : Registry} {src : String → Path} {k k' : String}
    (hm : (reg.get? k).map Module.specifiers = some []) (hr : sc.Reaches reg src k k') :
    k' = k := by
  rcases hr.cases_head with rfl | ⟨c, ⟨s, m, q, hm', hs, -, -⟩, -⟩
  · rfl
  · rw [hm'] at hm
    simp only [Option.map_some, Option.some.injEq] at hm
    rw [hm] at hs
    cases hs

/-- The scan from `v` finishes `a` before `b`, although `a` reaches `b` through `v` and `b`
reaches nothing at all. -/
theorem scan_order_through_cycle :
    ∃ reg, (Scanner.new throughCycleWorkspace "" .textual).scan "v" = .ok reg ∧
      reg.order = ["a", "b", "v"] ∧
      ∀ src, (Scanner.new throughCycleWorkspace "" .textual).Reaches reg src "a" "b" ∧
        ¬ (Scanner.new throughCycleWorkspace "" .textual).Reaches reg src "b" "a" := by
  obtain ⟨reg, hs, ho, ha, hv, hb⟩ : ∃ reg,
      (Scanner.new throughCycleWorkspace "" .textual).scan "v" = .ok reg ∧
      reg.order = ["a", "b", "v"] ∧ (reg.get? "a").map Module.specifiers = some ["/v"] ∧
      (reg.get? "v").map Module.specifiers = some ["/a", "/b"] ∧
      (reg.get? "b").map Module.specifiers = some [] :=
    ⟨_, by cbv, by cbv, by cbv, by cbv, by cbv⟩
  refine ⟨reg, hs, ho, fun src => ⟨?_, ?_⟩⟩
  · -- `a` imports `v`, which imports `b`; specifiers from the root resolve alike everywhere
    refine Relation.ReflTransGen.head
      ⟨"/v", imports_of_specifiers ha (by decide) ⟨_, by cbv, by cbv⟩⟩
      (Relation.ReflTransGen.single
        ⟨"/b", imports_of_specifiers hv (by decide) ⟨_, by cbv, by cbv⟩⟩)
  · intro hr
    exact absurd (eq_of_reaches_of_specifiers_nil hb hr) (by decide)

/-- The scan through the cycle, with the order every successful scan has. -/
theorem scan_through_cycle_dependencies_first :
    ∃ reg, (Scanner.new throughCycleWorkspace "" .textual).scan "v" = .ok reg ∧
      ∃ src : String → Path,
        (∀ k m, reg.get? k = some m → (Scanner.new throughCycleWorkspace "" .textual).ReadAs k
          (src k) m) ∧
        (∀ k, reg.has k → (Scanner.new throughCycleWorkspace "" .textual).Closed reg src k) ∧
        ∀ a b, reg.has a → (Scanner.new throughCycleWorkspace "" .textual).ReachesOutside reg src
          a b → List.Sublist [b, a] reg.order := by
  obtain ⟨reg, h⟩ : ∃ reg, (Scanner.new throughCycleWorkspace "" .textual).scan "v" = .ok reg :=
    ⟨_, by cbv⟩
  exact ⟨reg, h, scan_dependencies_first h⟩

end ModuleBundler.Scanner
