import ModuleBundler.Path

/-!
The normal form of lexical paths.

Normalising any path gives its `..` steps first and names after them, and a path read from text
keeps only proper names: none is empty, `.` or `..`. Normalising is idempotent, and it may start
from the normalised first path of a join, which is what lets a root be normalised once and each
entry and specifier joined to it be normalised after.
-/

namespace ModuleBundler.Path

/-- The names of a normalised path read from text are names of the text. -/
theorem names_ofString_normalize {s : String} {n : String}
    (h : Step.down n ∈ (Path.ofString s).normalize.steps) :
    n ≠ "" ∧ n ≠ "." ∧ n ≠ ".." := by
  simp only [normalize, List.mem_reverse] at h
  rcases mem_foldl_pushStep h with h | h
  · cases h
  · simp only [ofString, List.mem_filterMap] at h
    obtain ⟨part, -, hp⟩ := h
    obtain ⟨rfl, h1, h2, h3⟩ := stepOf_eq_down hp
    exact ⟨h1, h2, h3⟩

/-- Normalising gives `..` steps, then proper names when read from text; it is idempotent; and
normalising a join may start from the normalised first path. -/
theorem normalize_shape_idem_join (s : String) (a b : Path) :
    (∃ (k : Nat) (names : List String),
      (Path.ofString s).normalize.steps = List.replicate k Step.up ++ names.map Step.down ∧
      ∀ n ∈ names, n ≠ "" ∧ n ≠ "." ∧ n ≠ "..") ∧
    a.normalize.IsNormal ∧
    a.normalize.normalize = a.normalize ∧
    (a.join b).normalize = (a.normalize.join b).normalize := by
  obtain ⟨k, names, h⟩ := normalize_isNormal (Path.ofString s)
  refine ⟨⟨k, names, h, fun n hn => names_ofString_normalize (s := s) ?_⟩, normalize_isNormal a,
    normalize_normalize a, normalize_join a b⟩
  rw [h]
  exact List.mem_append_right _ (List.mem_map_of_mem hn)

end ModuleBundler.Path
