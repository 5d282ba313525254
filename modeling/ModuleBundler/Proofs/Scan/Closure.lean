import ModuleBundler.Proofs.Scan.Invariant
import Mathlib

/-!
The registry of a finished scan.

After a scan every key has been finished exactly once, the entry last; each module is the
parse of the file read for its key; every import of every module resolves to a registered key
that records the specifier, and only such imports are recorded; and every key is reachable
from the entry. Main statement: `scan_registry_closed`.
-/

namespace ModuleBundler.Scanner

open Registry

variable {sc : Scanner}

/-- What the scan from `entry` finishes with, before the entry is written into the registry. -/
theorem scan_visited {entry : String} {reg : Registry} (h : sc.scan entry = .ok reg) :
    ∃ reg₀ src, reg = { reg₀ with entry := reg.entry } ∧
      sc.Visited {} (fun _ => Path.empty) ((sc.root.join (Path.ofString entry)).normalize)
        reg.entry reg₀ src := by
  simp only [scan] at h
  split at h
  · cases h
  · rename_i key reg₀ hv
    cases h
    obtain ⟨src, V⟩ := visit_spec _ _ _ _ _ _ (inv_empty _) (fun _ ho _ => by simp [has] at ho) hv
    exact ⟨reg₀, src, rfl, V⟩

/-- A successful scan lists every key in `order` once, the entry last; reads each module from
a file with its key; closes the registry under imports, recording each specifier at the key
it resolves to and nothing else; and reaches every key from the entry. -/
theorem scan_registry_closed {entry : String} {reg : Registry} (h : sc.scan entry = .ok reg) :
    ∃ src : String → Path,
      (reg.modules.map (·.1)).Nodup ∧ reg.order.Perm (reg.modules.map (·.1)) ∧
      reg.order.getLast? = some reg.entry ∧
      (∀ k m, reg.get? k = some m → sc.ReadAs k (src k) m) ∧
      (∀ k, reg.has k → sc.Closed reg src k) ∧
      (∀ k' s, s ∈ reg.aliasesOf k' → ∃ k, sc.Imports reg src k s k') ∧
      (∀ k' ∈ reg.aliases.map (·.1), reg.has k') ∧
      (∀ k, reg.has k → sc.Reaches reg src reg.entry k) := by
  obtain ⟨reg₀, src, hreg, V⟩ := scan_visited h
  rw [hreg]
  obtain ⟨new, fin, hm, ho, hp⟩ := V.finishes
  simp only [List.nil_append] at hm ho
  -- every registered key is finished, since the order is a permutation of the keys
  have hperm : reg₀.order.Perm (reg₀.modules.map (·.1)) := by rw [ho, hm]; exact hp
  have hfresh : ∀ k, ¬ ({} : Registry).has k := by simp [has]
  refine ⟨src, V.inv.nodup, hperm, V.last (hfresh _), V.inv.read, ?_, V.inv.alias_sound,
    V.inv.alias_keys, fun k hk => V.reach k hk (hfresh k)⟩
  intro k hk
  exact (V.inv.finished k (hperm.mem_iff.2 (has_iff.1 hk))).2

/-- Two files that import each other. -/
def cycleWorkspace : Workspace :=
  ⟨[(["a.js"], .file "import 'b.js';\n".toUTF8), (["b.js"], .file "import 'a.js';\n".toUTF8)],
    none⟩

/-- The scan of the cycle succeeds, and no name of its registry has two owners. -/
theorem scan_cycle_ok :
    ∃ reg, (Scanner.new cycleWorkspace "" .textual).scan "a.js" = .ok reg ∧
      ∃ names, reg.registrationNames = .ok names :=
  ⟨_, by cbv, _, by cbv⟩

theorem scan_cycle_closed :
    ∃ reg, (Scanner.new cycleWorkspace "" .textual).scan "a.js" = .ok reg ∧
      ∃ src : String → Path,
        (reg.modules.map (·.1)).Nodup ∧ reg.order.Perm (reg.modules.map (·.1)) ∧
        reg.order.getLast? = some reg.entry ∧
        (∀ k m, reg.get? k = some m → (Scanner.new cycleWorkspace "" .textual).ReadAs k (src k) m) ∧
        (∀ k, reg.has k → (Scanner.new cycleWorkspace "" .textual).Closed reg src k) ∧
        (∀ k' s, s ∈ reg.aliasesOf k' →
          ∃ k, (Scanner.new cycleWorkspace "" .textual).Imports reg src k s k') ∧
        (∀ k' ∈ reg.aliases.map (·.1), reg.has k') ∧
        (∀ k, reg.has k → (Scanner.new cycleWorkspace "" .textual).Reaches reg src reg.entry k) := by
  obtain ⟨reg, h, -⟩ := scan_cycle_ok
  exact ⟨reg, h, scan_registry_closed h⟩

end ModuleBundler.Scanner
